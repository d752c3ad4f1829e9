import Ttm.Proofs.Lexeme.Table
import Ttm.Proofs.Lexeme.Word
import Ttm.Proofs.Program.Interruption
import Ttm.Proofs.Symbol.Library

/-! The two tables of a program point into each other. -/
namespace Ttm

open Lexeme (Kind)
open Source (Token)
open Ttm.Symbol (Signature)

/-- Kinds of lexemes that refer to a symbol. -/
def Lexeme.Kind.referring : List Kind := [.identifier, .literal, .mainWord]

/-- Kinds that no scan writes. -/
def Lexeme.Kind.unwritten : List Kind := [.i32, .str, .integer, .string, .call, .padding]

namespace Program

/-- What holds of the tables behind any number of scans. -/
structure CrossReferenced (p : Program) : Prop where
  symbol_isSome : ∀ l ∈ p.lexemes.toList, l.symbol.isSome ↔ l.kind ∈ Kind.referring
  inside : ∀ l ∈ p.lexemes.toList, ∀ i, l.symbol = some i → i < p.symbols.size
  literal : ∀ l ∈ p.lexemes.toList, l.kind = .literal → ∀ i x, l.symbol = some i →
    p.symbols.get? i = some x → x.kind = .literal
  identifier : ∀ l ∈ p.lexemes.toList, l.kind = .identifier → ∀ i x, l.symbol = some i →
    p.symbols.get? i = some x → x.kind ≠ .literal
  main : ∀ l ∈ p.lexemes.toList, l.kind = .mainWord → ∀ i x, l.symbol = some i →
    p.symbols.get? i = some x →
      x.name = Kind.mainWord.text ∧ x.scope = Symbol.globalScope ∧ x.kind = .function
  symbols : ∀ x ∈ p.symbols.toList, x.type ≠ .undefined ∧ x.kind ≠ .unknown
  written : ∀ l ∈ p.lexemes.toList, l.kind ∉ Kind.unwritten

/-- Any number of scans, one after another, into the same tables. -/
def scanAll [Limits] (runs : List (ScanSettings × Nat × List Token)) (p : Program) : Program :=
  runs.foldl (fun p (settings, maxDepth, tokens) => (scan settings maxDepth tokens p).program) p

end Program

namespace Symbol

/-- The symbols that scans add. -/
def Sound (x : Symbol) : Prop :=
  x.type ≠ .undefined ∧ x.kind ≠ .unknown ∧
    (x.kind = .literal → x.literalKey?.isSome ∧ ∃ q, x.position = some q ∧ x.name = s!"L{q}") ∧
    (x.name = Kind.mainWord.text → x.kind = .function)

/-- The symbols that a lexeme of a kind refers to. -/
def Suits (x : Symbol) : Kind → Prop
  | .identifier => x.kind ≠ .literal
  | .literal => x.kind = .literal
  | .mainWord =>
    x.name = Kind.mainWord.text ∧ x.scope = globalScope ∧ x.kind = .function
  | _ => False

end Symbol

/-- A lexeme whose symbol is where it points. -/
inductive Lexeme.Linked (symbols : Symbol.Table) : Lexeme → Prop
  | bare {k : Kind} {line : Nat} (hk : k ∉ Kind.referring) (hw : k ∉ Kind.unwritten) :
    Linked symbols ⟨k, line, none⟩
  | pointing {k : Kind} {line i : Nat} {x : Symbol} (hx : symbols.get? i = some x)
    (hs : x.Suits k) : Linked symbols ⟨k, line, some i⟩

theorem Lexeme.Linked.add {symbols : Symbol.Table} {l : Lexeme} {x : Symbol}
    (h : l.Linked symbols) : l.Linked (symbols.add x) := by
  cases h with
  | bare hk hw => exact .bare hk hw
  | pointing hx hs => exact .pointing (Symbol.Table.get?_add hx) hs

namespace Program

structure Linked (p : Program) : Prop where
  indexed : p.symbols.Indexed
  sound : ∀ x ∈ p.symbols.toList, x.Sound
  lexemes : ∀ l ∈ p.lexemes.toList, l.Linked p.symbols

/-- A symbol for a lexeme of kind `k` is found, or added for the place where the lexeme comes. -/
inductive Attains (p : Program) (k : Kind) : Nat → Program → Prop
  | known {i : Nat} {x : Symbol} (hx : p.symbols.get? i = some x) (hs : x.Suits k) :
    Attains p k i p
  | added {x : Symbol} (hr : p.symbols.refusal? x = none) (hx : x.Sound) (hs : x.Suits k)
    (hp : x.position = some p.lexemes.size) : Attains p k p.symbols.size (p.addSymbol x)

variable {p u : Program} {k : Kind} {l : Lexeme} {i : Nat} {x : Symbol}

theorem linked_empty (maxSymbols maxLexemes : Nat) : Linked (empty maxSymbols maxLexemes) := by
  refine ⟨Symbol.Table.indexed_empty maxSymbols, ?_, ?_⟩ <;> intro _ h <;> cases h

theorem Linked.addSymbol (h : Linked p) (hr : p.symbols.refusal? x = none) (hx : x.Sound) :
    Linked (p.addSymbol x) := by
  refine ⟨h.indexed.add hr, ?_, fun l hl => (h.lexemes l hl).add⟩
  intro y hy
  rcases List.mem_append.mp (Symbol.Table.toList_add ▸ hy) with hy | hy
  · exact h.sound y hy
  · exact List.mem_singleton.mp hy ▸ hx

theorem Linked.addLexeme (h : Linked p) (hl : l.Linked p.symbols) : Linked (p.addLexeme l) := by
  refine ⟨h.indexed, h.sound, ?_⟩
  intro m hm
  rcases Lexeme.Table.mem_toList_add.mp hm with hm | rfl
  · exact h.lexemes m hm
  · exact hl

theorem Linked.sound_get? (h : Linked p) (hx : p.symbols.get? i = some x) : x.Sound :=
  h.sound x (Symbol.Table.mem_toList_iff.mpr ⟨i, hx⟩)

theorem Linked.suits (h : Linked p) (hl : l ∈ p.lexemes.toList) (hi : l.symbol = some i)
    (hx : p.symbols.get? i = some x) : x.Suits l.kind := by
  cases h.lexemes l hl with
  | bare => cases hi
  | pointing hy hs =>
    cases hi
    obtain rfl : _ = x := Option.some.inj (hy.symm.trans hx)
    exact hs

theorem Linked.crossReferenced (h : Linked p) : CrossReferenced p := by
  constructor
  · intro l hl
    cases h.lexemes l hl with
    | bare hk _ => simp [hk]
    | @pointing k _ _ _ _ hs => cases k <;> simp_all [Symbol.Suits, Kind.referring]
  · intro l hl i hi
    cases h.lexemes l hl with
    | bare => cases hi
    | pointing hx _ =>
      cases hi
      exact Symbol.Table.get?_lt hx
  · intro l hl hk i x hi hx
    simpa [hk, Symbol.Suits] using h.suits hl hi hx
  · intro l hl hk i x hi hx
    simpa [hk, Symbol.Suits] using h.suits hl hi hx
  · intro l hl hk i x hi hx
    simpa [hk, Symbol.Suits] using h.suits hl hi hx
  · intro x hx
    exact ⟨(h.sound x hx).1, (h.sound x hx).2.1⟩
  · intro l hl
    cases h.lexemes l hl with
    | bare _ hw => exact hw
    | @pointing k _ _ _ _ hs => cases k <;> simp_all [Symbol.Suits, Kind.unwritten]

theorem Attains.linked (ha : Attains p k i u) (h : Linked p) :
    Linked u ∧ ∃ x, u.symbols.get? i = some x ∧ x.Suits k := by
  cases ha with
  | known hx hs => exact ⟨h, _, hx, hs⟩
  | added hr hx hs _ => exact ⟨h.addSymbol hr hx, _, Symbol.Table.get?_add_self, hs⟩

theorem Attains.linked_addLexeme (ha : Attains p k i u) (h : Linked p) (line : Nat) :
    Linked (u.addLexeme ⟨k, line, some i⟩) := by
  obtain ⟨hu, x, hx, hs⟩ := ha.linked h
  exact hu.addLexeme (.pointing hx hs)

/-- Lexemes were added at the end, each with its symbol. -/
inductive Grows (p : Program) : Program → Prop
  | refl : Grows p p
  | bare {k : Kind} {line : Nat} {u : Program} (h : Grows p u) (hk : k ∉ Kind.referring)
    (hw : k ∉ Kind.unwritten) : Grows p (u.addLexeme ⟨k, line, none⟩)
  | refer {k : Kind} {line i : Nat} {u v : Program} (h : Grows p u) (ha : Attains u k i v) :
    Grows p (v.addLexeme ⟨k, line, some i⟩)

theorem Grows.linked (hg : Grows p u) (h : Linked p) : Linked u := by
  induction hg with
  | refl => exact h
  | bare _ hk hw ih => exact ih.addLexeme (.bare hk hw)
  | refer _ ha ih => exact ha.linked_addLexeme ih _

end Program

namespace Symbol

variable {name scope value : String} {type : DataType} {kind : SymbolKind} {q : Nat}

theorem name_literal_ne : (literal q type value).name ≠ Kind.mainWord.text := by
  intro hmain
  have hhead := congrArg (fun name => name.toList.head?) hmain
  have hl : toString "L" = "L" := rfl
  simp [literal, Kind.text, hl] at hhead

theorem sound_literal (ht : type ≠ .undefined) : (literal q type value).Sound :=
  ⟨ht, by simp [literal], fun _ => ⟨rfl, q, rfl, rfl⟩, fun hmain => absurd hmain name_literal_ne⟩

theorem sound_declared (ht : type ≠ .undefined) (hk : kind ≠ .unknown) (hl : kind ≠ .literal)
    (hmain : name = Kind.mainWord.text → kind = .function) :
    (declared name scope q type kind).Sound :=
  ⟨ht, hk, fun h => absurd h hl, hmain⟩

theorem sound_library {x : Symbol} (hx : x ∈ Signature.library) : x.Sound := by
  have hall : ∀ x ∈ Signature.library, x.type ≠ .undefined ∧ x.kind ≠ .unknown ∧
      x.kind ≠ .literal ∧ x.name ≠ Kind.mainWord.text := by decide
  obtain ⟨ht, hk, hl, hmain⟩ := hall x hx
  exact ⟨ht, hk, fun h => absurd h hl, fun h => absurd h hmain⟩

theorem kind_of_literalKey? {x : Symbol} {key : DataType × String}
    (h : x.literalKey? = some key) : x.kind = .literal := by
  unfold literalKey? at h
  split at h
  · next hl => simpa [isLiteral] using hl
  · cases h

theorem Sound.kind_ne_literal {x : Symbol} (hx : x.Sound) (h : x.literalKey? = none) :
    x.kind ≠ .literal := by
  intro hk
  have hsome := (hx.2.2.1 hk).1
  simp [h] at hsome

end Symbol

namespace Program.Scan

variable {limits : Limits} {s t : State} {token : Token} {called : Bool} {index : Nat} {k : Kind}
  {type : DataType} {value : String} {p : Program}

/-- The tables are linked, and a pending type is a real one. -/
def Ready (s : State) : Prop := s.program.Linked ∧ s.pendingType ≠ some .undefined

theorem literal?_type {text : String} (h : literal? text = some (type, value)) :
    type ≠ .undefined := by
  unfold literal? at h
  split at h
  · obtain ⟨n, -, hn⟩ := Option.map_eq_some_iff.mp h
    cases hn
    decide
  · split at h <;> cases h
    decide
  · cases h

theorem ne_main_of_identifier {text : String} (h : Kind.ofText? text = some .identifier) :
    text ≠ Kind.mainWord.text := by
  rintro rfl
  rw [Lexeme.ofText?_text (by decide)] at h
  cases h

theorem declarationKind?_cases {kind : SymbolKind} (h : s.declarationKind? = some kind) :
    kind = .function ∨ kind = .var ∨ kind = .parameter := by
  unfold State.declarationKind? at h
  simp only at h
  split at h
  · cases h
    exact Or.inl rfl
  · split at h
    · cases h
      exact Or.inr (Or.inl rfl)
    · split at h
      · cases h
        exact Or.inr (Or.inr rfl)
      · cases h

theorem ne_literal_of_declarationKind? {kind : SymbolKind} (h : s.declarationKind? = some kind) :
    kind ≠ .literal := by
  rcases declarationKind?_cases h with rfl | rfl | rfl <;> decide

theorem Interns.attains (hi : Interns type value s index t) (h : s.program.Linked)
    (ht : type ≠ .undefined) : s.program.Attains .literal index t.program := by
  cases hi with
  | reused hl =>
    obtain ⟨x, hx, hkey⟩ := h.indexed.get?_of_lookupLiteral hl
    exact .known hx (Symbol.kind_of_literalKey? hkey)
  | added hl hr => exact .added hr (Symbol.sound_literal ht) rfl rfl

theorem Resolves.attains (hr : Resolves token called s k index t) (h : Ready s) :
    s.program.Attains k index t.program := by
  cases hr with
  | found hk hself hl hd =>
    obtain ⟨x, hx, hkey, -⟩ := h.1.indexed.get?_of_lookup hl
    exact .known hx ((h.1.sound_get? hx).kind_ne_literal hkey)
  | @declared kind type hk hself hl hd ht hr =>
    have htype : type ≠ .undefined := by
      rintro rfl
      exact h.2 ht
    have hmain : token.text = Kind.mainWord.text → kind = .function := fun he =>
      absurd he (ne_main_of_identifier hk)
    have hkind : kind ≠ .unknown ∧ kind ≠ .literal := by
      rcases declarationKind?_cases hd with rfl | rfl | rfl <;> decide
    rw [addDeclaration_prepare]
    exact .added hr (Symbol.sound_declared htype hkind.1 hkind.2 hmain) hkind.2
      position_declaration
  | main hk hl hd =>
    obtain ⟨x, hx, hkey, hscope, hname⟩ := h.1.indexed.get?_of_lookup hl
    exact .known hx ⟨hname, hscope, (h.1.sound_get? hx).2.2.2 hname⟩
  | mainDeclared hk hl hd ht hr =>
    exact .added hr (Symbol.sound_declared (by decide) (by decide) (by decide) fun _ => rfl)
      ⟨rfl, rfl, rfl⟩ rfl
  | literal hv hi => exact hi.attains h.1 (literal?_type hv)

theorem Interns.pendingType (hi : Interns type value s index t) :
    t.pendingType = s.pendingType := by
  cases hi <;> rfl

theorem Resolves.pendingType (hr : Resolves token called s k index t) (h : Ready s) :
    t.pendingType ≠ some .undefined := by
  cases hr with
  | found | main => exact h.2
  | declared | mainDeclared => exact fun hnone => by cases hnone
  | literal hv hi =>
    rw [hi.pendingType]
    exact h.2

theorem not_mem_of_isPlain (hk : Kind.ofText? token.text = some k) (hp : isPlain k) :
    k ∉ Kind.referring ∧ k ∉ Kind.unwritten := by
  have hmem := mem_of_ofText? hk
  revert hmem hp
  cases k <;> decide

theorem Step.grows (hs : Step token called s t) (h : Ready s) :
    s.program.Grows t.program ∧ t.pendingType ≠ some .undefined := by
  cases hs with
  | datatype hk ht room =>
    refine ⟨.bare .refl (by decide) (by decide), ?_⟩
    rintro ⟨⟩
    rcases datatype?_eq_some ht with ⟨-, h⟩ | ⟨-, h⟩ <;> cases h
  | refer hr hw =>
    have hgrows := @Grows.refer _ _ token.line _ _ _ .refl (hr.attains h)
    cases hw with
    | plain hc room => exact ⟨hgrows, hr.pendingType h⟩
    | closing hc room => exact ⟨hgrows.bare (by decide) (by decide), hr.pendingType h⟩
  | sign hk he room hi =>
    have hopen : s.program.Grows (s.addLexeme ⟨.openParen, token.line, none⟩).program :=
      .bare .refl (by decide) (by decide)
    have hattains := hi.attains (hopen.linked h.1) (by decide)
    have hzero := @Grows.refer _ _ token.line _ _ _ hopen hattains
    exact ⟨hzero.bare (by decide) (by decide), hi.pendingType ▸ h.2⟩
  | minus hk he room => exact ⟨.bare .refl (by decide) (by decide), h.2⟩
  | enter hk hb hs room =>
    rcases hb with rfl | rfl <;> exact ⟨.bare .refl (by decide) (by decide), h.2⟩
  | leave hk hb hs room =>
    rcases hb with rfl | rfl <;> exact ⟨.bare .refl (by decide) (by decide), h.2⟩
  | plain hk hp room =>
    obtain ⟨hreferring, hunwritten⟩ := not_mem_of_isPlain hk hp
    exact ⟨.bare .refl hreferring hunwritten, h.2⟩

theorem Ready.step (h : Ready s) (hs : Step token called s t) : Ready t :=
  ⟨(hs.grows h).1.linked h.1, (hs.grows h).2⟩

theorem Ready.interrupted (h : Ready s) (hs : Interrupted token called s p) : p.Linked := by
  have hopen : (s.addLexeme ⟨.openParen, token.line, none⟩).program.Linked :=
    h.1.addLexeme (.bare (by decide) (by decide))
  cases hs with
  | unchanged => exact h.1
  | resolved hr => exact ((hr.attains h).linked h.1).1
  | referred hr => exact (hr.attains h).linked_addLexeme h.1 token.line
  | opened => exact hopen
  | zero hi => exact ((hi.attains hopen (by decide)).linked hopen).1
  | zeroReferred hi => exact (hi.attains hopen (by decide)).linked_addLexeme hopen token.line

end Program.Scan

namespace Program

variable {settings : ScanSettings} {limits : Limits} {p : Program} {maxDepth : Nat}
  {tokens : List Token}

theorem Linked.registerLibrary (h : Linked p) :
    Linked { p with symbols := p.symbols.registerLibrary.2 } :=
  Symbol.Table.registerLibrary_induction
    (fun _ _ hx (ht : Linked ⟨_, p.lexemes⟩) hr => ht.addSymbol hr (Symbol.sound_library hx)) h

/-- A scan keeps the tables linked, whether it succeeds or fails. -/
theorem Linked.scan (h : Linked p) : Linked (scan settings maxDepth tokens p).program := by
  have hready : Scan.Ready (.begin settings maxDepth p.symbols.registerLibrary.2 p.lexemes) :=
    ⟨h.registerLibrary, by simp [Scan.State.begin]⟩
  exact scan_induction (fun _ _ _ _ => Scan.Ready.step) (fun _ _ _ _ => Scan.Ready.interrupted)
    (fun _ => And.left) hready

/-- A run from empty tables leaves them linked. -/
theorem linked_of_scan {maxSymbols maxLexemes : Nat} {scanned : Scanned}
    (h : scan settings maxDepth tokens (empty maxSymbols maxLexemes) = scanned) :
    scanned.program.Linked :=
  h ▸ (linked_empty maxSymbols maxLexemes).scan

theorem Linked.scanAll (h : Linked p) (runs : List (ScanSettings × Nat × List Token)) :
    Linked (scanAll runs p) := by
  induction runs generalizing p with
  | nil => exact h
  | cons run runs ih => exact ih h.scan

end Program
end Ttm
