import Ttm.Proofs.Lexeme.Table
import Ttm.Proofs.Program.Action

/-! What one accepted token does to a scan. -/
namespace Ttm.Program

open Lexeme (Kind)
open Source (Token)

namespace Scan

/-- Type and value of a literal in the text of a token. -/
def literal? [Limits] (text : String) : Option (DataType × String) :=
  match Kind.ofText? text with
  | some .integer => (Lexeme.decimal? maxInteger text.toList).map fun n => (.i32, Nat.repr n)
  | some .string =>
    match text.toList.tail.dropLast with
    | [] => none
    | content => some (.str, String.ofList content)
  | _ => none

def datatype? : Kind → Option DataType
  | .i32 => some .i32
  | .str => some .str
  | _ => none

/-- Kinds of tokens that become a lexeme of the same kind and do nothing else. -/
def isPlain : Kind → Bool
  | .i32 | .str | .mainWord | .identifier | .integer | .string | .minus => false
  | .openBrace | .openParen | .closeBrace | .closeParen => false
  | _ => true

inductive Interns (type : DataType) (value : String) (s : State) : Nat → State → Prop
  | reused {index : Nat} (hl : s.program.symbols.lookupLiteral type value = some index) :
    Interns type value s index s.reuseLiteral
  | added (hl : s.program.symbols.lookupLiteral type value = none)
    (hr : s.program.symbols.refusal? (s.newLiteral type value) = none) :
    Interns type value s s.program.symbols.size (s.addLiteral type value)

/-- A token stands for a symbol, which it finds or adds. -/
inductive Resolves [Limits] (token : Token) (called : Bool) (s : State) : Kind → Nat → State → Prop
  | found {index : Nat} (hk : Kind.ofText? token.text = some .identifier)
    (hself : token.text = s.scopes.current → called)
    (hl : s.program.symbols.lookup (s.lookupScope called) token.text = some index)
    (hd : s.declarationKind? = none) : Resolves token called s .identifier index s
  | declared {kind : SymbolKind} {type : DataType}
    (hk : Kind.ofText? token.text = some .identifier)
    (hself : token.text = s.scopes.current → called)
    (hl : s.program.symbols.lookup (s.lookupScope called) token.text = none)
    (hd : s.declarationKind? = some kind) (ht : s.pendingType = some type)
    (hr : s.program.symbols.refusal?
      ((s.prepare kind token.text).declaration token.text kind type) = none) :
    Resolves token called s .identifier s.program.symbols.size
      ((s.prepare kind token.text).addDeclaration token.text kind type token.line)
  | main {index : Nat} (hk : Kind.ofText? token.text = some .mainWord)
    (hl : s.program.symbols.lookup Symbol.globalScope Kind.mainWord.text = some index)
    (hd : s.program.lexemes.declaresFunction = false) : Resolves token called s .mainWord index s
  | mainDeclared (hk : Kind.ofText? token.text = some .mainWord)
    (hl : s.program.symbols.lookup Symbol.globalScope Kind.mainWord.text = none)
    (hd : s.program.lexemes.declaresFunction) (ht : s.pendingType = some .i32)
    (hr : s.program.symbols.refusal? ((s.beginFunction Kind.mainWord.text).declaration
      Kind.mainWord.text .function .i32) = none) :
    Resolves token called s .mainWord s.program.symbols.size
      ((s.beginFunction Kind.mainWord.text).addDeclaration Kind.mainWord.text .function .i32
        token.line)
  | literal {type : DataType} {value : String} {index : Nat} {t : State}
    (hv : literal? token.text = some (type, value)) (hi : Interns type value s index t) :
    Resolves token called s .literal index t

/-- A symbol becomes a lexeme, and an open sign ends behind its operand. -/
inductive Refers (line : Nat) (k : Kind) (index : Nat) (s : State) : State → Prop
  | plain (hc : s.closes k index = false) (room : s.HasRoom 1) :
    Refers line k index s (s.addLexeme ⟨k, line, some index⟩)
  | closing (hc : s.closes k index) (room : s.HasRoom 2) :
    Refers line k index s
      { (s.addLexeme ⟨k, line, some index⟩).addLexeme ⟨.closeParen, line, none⟩ with
        signOpen := false }

/-- A token that is accepted. -/
inductive Step [Limits] (token : Token) (called : Bool) (s : State) : State → Prop
  | datatype {k : Kind} {type : DataType} (hk : Kind.ofText? token.text = some k)
    (ht : datatype? k = some type) (room : s.HasRoom 1) :
    Step token called s
      ({ s with pendingType := some type }.addLexeme ⟨.datatype, token.line, none⟩)
  | refer {k : Kind} {index : Nat} {u t : State} (hr : Resolves token called s k index u)
    (hw : Refers token.line k index u t) : Step token called s t
  | sign {index : Nat} {t : State} (hk : Kind.ofText? token.text = some .minus)
    (he : s.expectsOperand) (room : s.HasRoom 3)
    (hi : Interns .i32 "0" (s.addLexeme ⟨.openParen, token.line, none⟩) index t) :
    Step token called s
      { ((t.addLexeme ⟨.literal, token.line, some index⟩).addLexeme
          ⟨.minus, token.line, none⟩).count
          (fun m => { m with unaryGroups := m.unaryGroups + 1 }) with signOpen := true }
  | minus (hk : Kind.ofText? token.text = some .minus) (he : s.expectsOperand = false)
    (room : s.HasRoom 1) : Step token called s (s.addLexeme ⟨.minus, token.line, none⟩)
  | enter {k : Kind} {scopes : Scopes} (hk : Kind.ofText? token.text = some k)
    (hb : k = .openBrace ∨ k = .openParen) (hs : s.scopes.enter s.function = .ok scopes)
    (room : s.HasRoom 1) :
    Step token called s
      (({ s with scopes }.tell s.settings.logScopes
        (.entered s.function scopes.depth token.line)).addLexeme ⟨k, token.line, none⟩)
  | leave {k : Kind} {scopes : Scopes} (hk : Kind.ofText? token.text = some k)
    (hb : k = .closeBrace ∨ k = .closeParen) (hs : s.scopes.exit = .ok scopes)
    (room : s.HasRoom 1) :
    Step token called s
      (({ s with scopes }.tell s.settings.logScopes
        (.left scopes.current scopes.depth token.line)).addLexeme ⟨k, token.line, none⟩)
  | plain {k : Kind} (hk : Kind.ofText? token.text = some k) (hp : isPlain k)
    (room : s.HasRoom 1) : Step token called s (s.addLexeme ⟨k, token.line, none⟩)

variable {limits : Limits} {s t : State} {token : Token} {called : Bool} {index line : Nat}
  {type : DataType} {value : String}

theorem hasRoom_addLexeme {l : Lexeme} {n : Nat} :
    (s.addLexeme l).HasRoom n ↔ s.HasRoom (n + 1) := by
  unfold State.HasRoom State.addLexeme Lexeme.Table.size Lexeme.Table.add
  rw [Array.size_push, Nat.add_right_comm, Nat.add_assoc]

theorem datatype?_eq_some {k : Kind} (h : datatype? k = some type) :
    k = .i32 ∧ type = .i32 ∨ k = .str ∧ type = .str := by
  unfold datatype? at h
  split at h <;> cases h
  · exact Or.inl ⟨rfl, rfl⟩
  · exact Or.inr ⟨rfl, rfl⟩

theorem intern_eq_ok_iff :
    intern type value line s = .ok index t ↔ Interns type value s index t := by
  rw [intern_eq_ok]
  constructor
  · rintro (⟨hl, rfl⟩ | ⟨hl, hr, rfl, rfl⟩)
    · exact .reused hl
    · exact .added hl hr
  · intro h
    cases h with
    | reused hl => exact Or.inl ⟨hl, rfl⟩
    | added hl hr => exact Or.inr ⟨hl, hr, rfl, rfl⟩

theorem refers_of_not_closes {k : Kind} (hc : s.closes k index = false) :
    emit k line (some index) s = .ok () t ↔ Refers line k index s t := by
  rw [emit_eq_ok]
  constructor
  · rintro ⟨room, rfl⟩
    exact .plain hc room
  · intro h
    cases h with
    | plain _ room => exact ⟨room, rfl⟩
    | closing hc' _ => simp [hc] at hc'

theorem refers_iff {k : Kind} {c : State → Prop} [DecidablePred c]
    (hc : c (s.addLexeme ⟨k, line, some index⟩) ↔ s.closes k index) :
    (do emit k line (some index)
        let u ← get
        if c u then closeSign line : Action Unit) s = .ok () t ↔ Refers line k index s t := by
  simp only [bind_eq_ok, emit_eq_ok, get_bind, ite_eq_ok, closeSign_eq_ok, pure_eq_ok]
  constructor
  · rintro ⟨_, _, ⟨room, rfl⟩, ⟨hcond, room', rfl⟩ | ⟨hcond, -, rfl⟩⟩
    · exact .closing (hc.mp hcond) (hasRoom_addLexeme.mp room')
    · exact .plain (Bool.eq_false_iff.mpr fun h => hcond (hc.mpr h)) room
  · intro h
    cases h with
    | plain hcloses room =>
      refine ⟨(), _, ⟨room, rfl⟩, Or.inr ⟨fun h => ?_, trivial, rfl⟩⟩
      simp [hc.mp h] at hcloses
    | closing hcloses room =>
      have hroom : s.HasRoom 1 := by
        unfold State.HasRoom at room ⊢
        omega
      exact ⟨(), _, ⟨hroom, rfl⟩, Or.inl ⟨hc.mpr hcloses, hasRoom_addLexeme.mpr room, rfl⟩⟩

theorem scanLiteral_eq_ok : scanLiteral type value line s = .ok () t ↔
    ∃ index u, Interns type value s index u ∧ Refers line .literal index u t := by
  unfold scanLiteral
  rw [bind_eq_ok]
  simp only [intern_eq_ok_iff]
  refine exists_congr fun index => exists_congr fun u => and_congr_right fun _ => refers_iff ?_
  rfl

theorem scanIdentifier_eq_ok (hk : Kind.ofText? token.text = some .identifier) :
    scanIdentifier token.text token.line called s = .ok () t ↔
      ∃ index u, Resolves token called s .identifier index u ∧
        Refers token.line .identifier index u t := by
  have hwrite (index : Nat) (u : State) := @refers_iff u t index token.line .identifier
    (fun v => v.signOpen ∧ !v.program.symbols.isFunction (some index)) _ (by
      simp [State.closes, State.addLexeme])
  by_cases hself : token.text = s.scopes.current ∧ !called
  · simp only [scanIdentifier, get_bind, hself, and_self, if_true, raise_bind, reduceCtorEq,
      false_iff]
    rintro ⟨index, u, hr, -⟩
    cases hr <;> simp_all
  have hself' : token.text = s.scopes.current → called := by simpa using hself
  simp only [scanIdentifier, get_bind, if_neg hself]
  cases hl : s.program.symbols.lookup (s.lookupScope called) token.text with
  | some found =>
    cases hd : s.declarationKind? with
    | some kind =>
      simp only [Option.isSome_some, if_true, raise_bind, reduceCtorEq, false_iff]
      rintro ⟨index, u, hr, -⟩
      cases hr <;> simp_all
    | none =>
      simp only [Option.isSome_none, Bool.false_eq_true, if_false, pure_bind]
      rw [hwrite]
      constructor
      · intro h
        exact ⟨found, s, .found hk hself' hl hd, h⟩
      · rintro ⟨index, u, hr, hw⟩
        cases hr with
        | found hk hself hl' hd =>
          rw [hl, Option.some.injEq] at hl'
          exact hl' ▸ hw
        | declared hk hself hl' => simp [hl] at hl'
  | none =>
    rw [bind_eq_ok]
    simp only [hwrite, declare_eq_ok]
    constructor
    · rintro ⟨_, _, ⟨kind, type, hd, ht, hr, rfl, rfl⟩, hw⟩
      exact ⟨_, _, .declared hk hself' hl hd ht hr, hw⟩
    · rintro ⟨index, u, hr, hw⟩
      cases hr with
      | found hk hself hl' => simp [hl] at hl'
      | declared hk hself hl' hd ht hr => exact ⟨_, _, ⟨_, _, hd, ht, hr, rfl, rfl⟩, hw⟩

theorem scanMain_eq_ok (hk : Kind.ofText? token.text = some .mainWord) :
    scanMain token.line s = .ok () t ↔
      ∃ index u, Resolves token called s .mainWord index u ∧
        Refers token.line .mainWord index u t := by
  have hwrite (index : Nat) (u : State) : emit .mainWord token.line (some index) u = .ok () t ↔
      Refers token.line .mainWord index u t := refers_of_not_closes rfl
  simp only [scanMain, get_bind]
  cases hl : s.program.symbols.lookup Symbol.globalScope Kind.mainWord.text with
  | some found =>
    cases hd : s.program.lexemes.declaresFunction with
    | true =>
      simp only [if_true, raise_bind, reduceCtorEq, false_iff]
      rintro ⟨index, u, hr, -⟩
      cases hr <;> simp_all
    | false =>
      simp only [Bool.false_eq_true, if_false, pure_bind]
      rw [hwrite]
      constructor
      · intro h
        exact ⟨found, s, .main hk hl hd, h⟩
      · rintro ⟨index, u, hr, hw⟩
        cases hr with
        | main hk hl' hd =>
          rw [hl, Option.some.injEq] at hl'
          exact hl' ▸ hw
        | mainDeclared hk hl' => simp [hl] at hl'
  | none =>
    cases hd : s.program.lexemes.declaresFunction with
    | false =>
      simp only [Bool.not_false, if_true, raise_bind, reduceCtorEq, false_iff]
      rintro ⟨index, u, hr, -⟩
      cases hr <;> simp_all
    | true =>
      by_cases ht : s.pendingType = some .i32
      · simp only [Bool.not_true, Bool.false_eq_true, if_false, ht, ne_eq, not_true_eq_false,
          modify_bind]
        rw [bind_eq_ok]
        simp only [hwrite, insertDeclaration_eq_ok]
        constructor
        · rintro ⟨_, _, ⟨type, ht', hr, rfl, rfl⟩, hw⟩
          have htype : DataType.i32 = type := Option.some.inj (ht.symm.trans ht')
          subst htype
          exact ⟨_, _, .mainDeclared hk hl hd ht hr, hw⟩
        · rintro ⟨index, u, hr, hw⟩
          cases hr with
          | main hk hl' => simp [hl] at hl'
          | mainDeclared hk hl' hd ht hr => exact ⟨_, _, ⟨_, ht, hr, rfl, rfl⟩, hw⟩
      · simp only [Bool.not_true, Bool.false_eq_true, if_false, ht, ne_eq, not_false_eq_true,
          if_true, raise_bind, reduceCtorEq, false_iff]
        rintro ⟨index, u, hr, -⟩
        cases hr <;> simp_all

theorem Interns.hasRoom {n : Nat} (hi : Interns type value s index t) :
    t.HasRoom n ↔ s.HasRoom n := by
  cases hi <;> rfl

theorem openSign_eq_ok : openSign line s = .ok () t ↔
    ∃ index u, s.HasRoom 3 ∧
      Interns .i32 "0" (s.addLexeme ⟨.openParen, line, none⟩) index u ∧
      t = { ((u.addLexeme ⟨.literal, line, some index⟩).addLexeme ⟨.minus, line, none⟩).count
          (fun m => { m with unaryGroups := m.unaryGroups + 1 }) with signOpen := true } := by
  simp only [openSign, bind_eq_ok, emit_eq_ok, intern_eq_ok_iff, modify_eq_ok]
  constructor
  · rintro ⟨_, _, ⟨-, rfl⟩, index, u, hi, _, _, ⟨-, rfl⟩, _, _, ⟨room, rfl⟩, rfl⟩
    refine ⟨index, u, ?_, hi, rfl⟩
    rw [hasRoom_addLexeme, hi.hasRoom, hasRoom_addLexeme] at room
    exact room
  · rintro ⟨index, u, room, hi, rfl⟩
    have hroom {n : Nat} (hn : n ≤ 3) : s.HasRoom n := by
      unfold State.HasRoom at room ⊢
      omega
    refine ⟨(), _, ⟨hroom (by omega), rfl⟩, index, u, hi, (), _, ⟨?_, rfl⟩, (), _, ⟨?_, rfl⟩, rfl⟩
    · rw [hi.hasRoom, hasRoom_addLexeme]
      exact hroom (by omega)
    · rw [hasRoom_addLexeme, hi.hasRoom, hasRoom_addLexeme]
      exact room

theorem enterScope_eq_ok {u : Unit} : enterScope line s = .ok u t ↔
    ∃ scopes, s.scopes.enter s.function = .ok scopes ∧
      t = { s with scopes }.tell s.settings.logScopes (.entered s.function scopes.depth line) := by
  unfold enterScope
  cases s.scopes.enter s.function with
  | ok scopes => simp [eq_comm]
  | error fault => cases fault <;> simp [raise_eq_ok]

theorem leaveScope_eq_ok {u : Unit} : leaveScope line s = .ok u t ↔
    ∃ scopes, s.scopes.exit = .ok scopes ∧
      t = { s with scopes }.tell s.settings.logScopes (.left scopes.current scopes.depth line) := by
  unfold leaveScope
  cases s.scopes.exit with
  | ok scopes => simp [eq_comm]
  | error fault => simp [raise_eq_ok]

/-- Kinds that a token can have. -/
theorem mem_of_ofText? {text : String} {k : Kind} (h : Kind.ofText? text = some k) :
    k ∈ Lexeme.recognizers.map (·.kind) := by
  unfold Kind.ofText? at h
  obtain ⟨r, hr, rfl⟩ := Option.map_eq_some_iff.mp h
  exact List.mem_map_of_mem (List.mem_of_find?_eq_some hr)

theorem resolves_literal : (∃ index u, Resolves token called s .literal index u ∧
      Refers token.line .literal index u t) ↔
    ∃ type value, literal? token.text = some (type, value) ∧
      scanLiteral type value token.line s = .ok () t := by
  simp only [scanLiteral_eq_ok]
  constructor
  · rintro ⟨index, u, hr, hw⟩
    cases hr with
    | literal hv hi => exact ⟨_, _, hv, index, u, hi, hw⟩
  · rintro ⟨type, value, hv, index, u, hi, hw⟩
    exact ⟨index, u, .literal hv hi, hw⟩

theorem scanInteger_eq_ok (hk : Kind.ofText? token.text = some .integer) :
    scanInteger token.text token.line s = .ok () t ↔
      ∃ index u, Resolves token called s .literal index u ∧
        Refers token.line .literal index u t := by
  rw [resolves_literal]
  unfold scanInteger literal?
  rw [hk]
  cases Lexeme.decimal? maxInteger token.text.toList with
  | none => simp [raise_eq_ok]
  | some n =>
    constructor
    · intro h
      exact ⟨_, _, rfl, h⟩
    · rintro ⟨_, _, ⟨⟩, h⟩
      exact h

theorem scanString_eq_ok (hk : Kind.ofText? token.text = some .string) :
    scanString token.text token.line s = .ok () t ↔
      ∃ index u, Resolves token called s .literal index u ∧
        Refers token.line .literal index u t := by
  rw [resolves_literal]
  unfold scanString literal?
  rw [hk]
  cases token.text.toList.tail.dropLast with
  | nil => simp [raise_eq_ok]
  | cons c content =>
    constructor
    · intro h
      exact ⟨_, _, rfl, h⟩
    · rintro ⟨_, _, ⟨⟩, h⟩
      exact h

/-- The kind of a lexeme that refers to a symbol comes from the kind of its token. -/
theorem Resolves.kind {k : Kind} (h : Resolves token called s k index t) :
    (Kind.ofText? token.text = some .identifier ∧ k = .identifier) ∨
    (Kind.ofText? token.text = some .mainWord ∧ k = .mainWord) ∨
    ((Kind.ofText? token.text = some .integer ∨ Kind.ofText? token.text = some .string) ∧
      k = .literal) := by
  cases h with
  | found hk | declared hk => exact Or.inl ⟨hk, rfl⟩
  | main hk | mainDeclared hk => exact Or.inr (Or.inl ⟨hk, rfl⟩)
  | literal hv =>
    refine Or.inr (Or.inr ⟨?_, rfl⟩)
    unfold literal? at hv
    split at hv <;> simp_all

theorem scanToken_of_plain {k : Kind} (hk : Kind.ofText? token.text = some k) (hp : isPlain k) :
    scanToken token called = emit k token.line := by
  unfold scanToken
  rw [hk]
  cases k <;> first | rfl | simp [isPlain] at hp

theorem scanToken_of_opening {k : Kind} (hk : Kind.ofText? token.text = some k)
    (hb : k = .openBrace ∨ k = .openParen) :
    scanToken token called = (do enterScope token.line; emit k token.line) := by
  unfold scanToken
  rw [hk]
  rcases hb with rfl | rfl <;> rfl

theorem scanToken_of_closing {k : Kind} (hk : Kind.ofText? token.text = some k)
    (hb : k = .closeBrace ∨ k = .closeParen) :
    scanToken token called = (do leaveScope token.line; emit k token.line) := by
  unfold scanToken
  rw [hk]
  rcases hb with rfl | rfl <;> rfl

theorem step_of_scanToken (h : scanToken token called s = .ok () t) : Step token called s t := by
  cases hk : Kind.ofText? token.text with
  | none => simp [scanToken, hk, raise_eq_ok] at h
  | some k =>
    by_cases hp : isPlain k
    · rw [scanToken_of_plain hk hp, emit_eq_ok] at h
      obtain ⟨room, rfl⟩ := h
      exact .plain hk hp room
    by_cases hopen : k = .openBrace ∨ k = .openParen
    · rw [scanToken_of_opening hk hopen, bind_eq_ok] at h
      simp only [enterScope_eq_ok, emit_eq_ok] at h
      obtain ⟨_, _, ⟨scopes, hs, rfl⟩, room, rfl⟩ := h
      exact .enter hk hopen hs room
    by_cases hclose : k = .closeBrace ∨ k = .closeParen
    · rw [scanToken_of_closing hk hclose, bind_eq_ok] at h
      simp only [leaveScope_eq_ok, emit_eq_ok] at h
      obtain ⟨_, _, ⟨scopes, hs, rfl⟩, room, rfl⟩ := h
      exact .leave hk hclose hs room
    unfold scanToken at h
    rw [hk] at h
    cases k with
    | i32 | str =>
      simp only [scanDatatype, modify_bind, emit_eq_ok] at h
      obtain ⟨room, rfl⟩ := h
      exact .datatype hk rfl room
    | mainWord =>
      obtain ⟨index, u, hr, hw⟩ := (scanMain_eq_ok hk).mp h
      exact .refer hr hw
    | identifier =>
      obtain ⟨index, u, hr, hw⟩ := (scanIdentifier_eq_ok hk).mp h
      exact .refer hr hw
    | integer =>
      obtain ⟨index, u, hr, hw⟩ := (scanInteger_eq_ok hk).mp h
      exact .refer hr hw
    | string =>
      obtain ⟨index, u, hr, hw⟩ := (scanString_eq_ok hk).mp h
      exact .refer hr hw
    | minus =>
      simp only [scanMinus, get_bind, ite_eq_ok, openSign_eq_ok, emit_eq_ok] at h
      rcases h with ⟨he, index, u, room, hi, rfl⟩ | ⟨he, room, rfl⟩
      · exact .sign hk he room hi
      · exact .minus hk (Bool.eq_false_iff.mpr he) room
    | openBrace | openParen => simp at hopen
    | closeBrace | closeParen => simp at hclose
    | _ => exact absurd rfl hp

theorem Step.scanToken_eq (h : Step token called s t) : scanToken token called s = .ok () t := by
  cases h with
  | datatype hk ht room =>
    unfold scanToken
    rw [hk]
    rcases datatype?_eq_some ht with ⟨rfl, rfl⟩ | ⟨rfl, rfl⟩ <;>
      exact emit_eq_ok.mpr ⟨room, rfl⟩
  | refer hr hw =>
    rename_i k index u
    unfold scanToken
    rcases hr.kind with ⟨hk, rfl⟩ | ⟨hk, rfl⟩ | ⟨hk | hk, rfl⟩
    all_goals rw [hk]
    · exact (scanIdentifier_eq_ok hk).mpr ⟨_, _, hr, hw⟩
    · exact (scanMain_eq_ok hk).mpr ⟨_, _, hr, hw⟩
    · exact (scanInteger_eq_ok hk).mpr ⟨_, _, hr, hw⟩
    · exact (scanString_eq_ok hk).mpr ⟨_, _, hr, hw⟩
  | sign hk he room hi =>
    unfold scanToken
    rw [hk]
    simp only [scanMinus, get_bind, he, if_true]
    exact openSign_eq_ok.mpr ⟨_, _, room, hi, rfl⟩
  | minus hk he room =>
    unfold scanToken
    rw [hk]
    simp only [scanMinus, get_bind, he, Bool.false_eq_true, if_false]
    exact emit_eq_ok.mpr ⟨room, rfl⟩
  | enter hk hb hs room =>
    rw [scanToken_of_opening hk hb, bind_eq_ok]
    exact ⟨(), _, enterScope_eq_ok.mpr ⟨_, hs, rfl⟩, emit_eq_ok.mpr ⟨room, rfl⟩⟩
  | leave hk hb hs room =>
    rw [scanToken_of_closing hk hb, bind_eq_ok]
    exact ⟨(), _, leaveScope_eq_ok.mpr ⟨_, hs, rfl⟩, emit_eq_ok.mpr ⟨room, rfl⟩⟩
  | plain hk hp room =>
    rw [scanToken_of_plain hk hp]
    exact emit_eq_ok.mpr ⟨room, rfl⟩

/-- A token is accepted just where there is a step for it, and the step tells what it does. -/
theorem scanToken_eq_ok : scanToken token called s = .ok () t ↔ Step token called s t :=
  ⟨step_of_scanToken, Step.scanToken_eq⟩

theorem scanTokens_cons_eq_ok {tokens : List Token} :
    scanTokens (token :: tokens) s = .ok () t ↔
      ∃ u, Step token (opensCall tokens) s u ∧ scanTokens tokens u = .ok () t := by
  show (scanToken token (opensCall tokens) >>= fun _ => scanTokens tokens) s = _ ↔ _
  rw [bind_eq_ok]
  constructor
  · rintro ⟨_, u, hu, hrest⟩
    exact ⟨u, scanToken_eq_ok.mp hu, hrest⟩
  · rintro ⟨u, hu, hrest⟩
    exact ⟨(), u, scanToken_eq_ok.mpr hu, hrest⟩

/-- What every accepted token keeps holds at the end of a run. -/
theorem scanTokens_induction {P : State → Prop} {tokens : List Token}
    (hstep : ∀ token called s t, P s → Step token called s t → P t) (hs : P s)
    (h : scanTokens tokens s = .ok () t) : P t := by
  induction tokens generalizing s with
  | nil =>
    obtain ⟨-, rfl⟩ := pure_eq_ok.mp h
    exact hs
  | cons token tokens ih =>
    obtain ⟨u, hu, hrest⟩ := scanTokens_cons_eq_ok.mp h
    exact ih (hstep _ _ _ _ hs hu) hrest

/-- The state in which the first token is scanned. -/
def State.begin (settings : ScanSettings) (maxDepth : Nat) (symbols : Symbol.Table)
    (lexemes : Lexeme.Table) : State :=
  ⟨settings, ⟨symbols, lexemes⟩, .global maxDepth, Symbol.globalScope, none, false, {}, []⟩

/-- The counts at the end of an accepted scan. -/
def State.summary (s : State) (tokens : List Token) : Metrics :=
  { s.metrics with
    tokens := tokens.length
    lexemes := s.program.lexemes.size
    symbols := s.program.symbols.size
    maxScopeDepth := s.scopes.deepest }

theorem checkPair_eq_ok {opening closing : Kind} {lexemes : Lexeme.Table} {u : Unit} :
    checkPair opening closing lexemes = .ok u ↔
      lexemes.kinds.count opening = lexemes.kinds.count closing := by
  simp only [checkPair, Lexeme.Table.countKind_eq]
  split <;> simp_all

/-- An entry point, and as many closing as opening brackets of each form. -/
theorem checkStructure_eq_ok {lexemes : Lexeme.Table} :
    checkStructure lexemes = .ok () ↔ .mainWord ∈ lexemes.kinds ∧
      lexemes.kinds.count .openParen = lexemes.kinds.count .closeParen ∧
      lexemes.kinds.count .openBrace = lexemes.kinds.count .closeBrace := by
  rw [← Lexeme.Table.hasKind_iff, ← checkPair_eq_ok (u := ()), ← checkPair_eq_ok (u := ())]
  unfold checkStructure
  cases lexemes.hasKind .mainWord with
  | false => simp [throw, throwThe, MonadExceptOf.throw, bind, Except.bind]
  | true =>
    cases checkPair .openParen .closeParen lexemes <;>
      cases checkPair .openBrace .closeBrace lexemes <;> simp [bind, Except.bind]

theorem registerLibrary_eq_ok {u : Unit} : registerLibrary line s = .ok u t ↔
    ∃ n symbols, s.program.symbols.registerLibrary = (.ok n, symbols) ∧
      t = { s with program.symbols := symbols } := by
  unfold registerLibrary
  cases s.program.symbols.registerLibrary with
  | mk result symbols =>
    cases result with
    | error e => simp [raise_eq_ok]
    | ok n =>
      simp only [EStateM.Result.ok.injEq, true_and]
      constructor
      · rintro rfl
        exact ⟨n, symbols, rfl, rfl⟩
      · rintro ⟨_, _, ⟨⟩, rfl⟩
        rfl

theorem run_eq_ok {tokens : List Token} {metrics : Metrics} :
    run tokens s = .ok metrics t ↔ ∃ n symbols,
      s.program.symbols.registerLibrary = (.ok n, symbols) ∧
      scanTokens tokens { s with program.symbols := symbols } = .ok () t ∧
      checkStructure t.program.lexemes = .ok () ∧ metrics = t.summary tokens := by
  unfold run
  simp only [bind_eq_ok, registerLibrary_eq_ok, get_bind]
  constructor
  · rintro ⟨_, _, ⟨n, symbols, hr, rfl⟩, _, u, hu, h⟩
    cases hc : checkStructure u.program.lexemes with
    | error e =>
      rw [hc] at h
      exact (raise_eq_ok.mp h).elim
    | ok _ =>
      rw [hc] at h
      obtain ⟨rfl, rfl⟩ := pure_eq_ok.mp h
      exact ⟨n, symbols, hr, hu, hc, rfl⟩
  · rintro ⟨n, symbols, hr, hu, hc, rfl⟩
    refine ⟨(), _, ⟨n, symbols, hr, rfl⟩, (), t, hu, ?_⟩
    rw [hc]
    exact pure_eq_ok.mpr ⟨rfl, rfl⟩

end Scan

variable {settings : ScanSettings} {limits : Limits} {p : Program} {tokens : List Token}
  {maxDepth n : Nat} {symbols : Symbol.Table} {metrics : Metrics} {t : Scan.State}

theorem scan_of_run (h : Scan.run tokens (.begin settings maxDepth p.symbols p.lexemes) =
    .ok metrics t) :
    scan settings maxDepth tokens p = ⟨t.program, t.notes.reverse, .ok metrics⟩ := by
  unfold scan
  split
  · next hrun =>
    cases h.symm.trans hrun
    rfl
  · next hrun => cases h.symm.trans hrun

theorem scan_of_run_error {e : Error}
    (h : Scan.run tokens (.begin settings maxDepth p.symbols p.lexemes) = .error e t) :
    scan settings maxDepth tokens p = ⟨t.program, t.notes.reverse, .error e⟩ := by
  unfold scan
  split
  · next hrun => cases h.symm.trans hrun
  · next hrun =>
    cases h.symm.trans hrun
    rfl

theorem scan_of_steps (hr : p.symbols.registerLibrary = (.ok n, symbols))
    (hs : Scan.scanTokens tokens (.begin settings maxDepth symbols p.lexemes) = .ok () t)
    (hc : Scan.checkStructure t.program.lexemes = .ok ()) :
    scan settings maxDepth tokens p = ⟨t.program, t.notes.reverse, .ok (t.summary tokens)⟩ :=
  scan_of_run (Scan.run_eq_ok.mpr ⟨n, symbols, hr, hs, hc, rfl⟩)

/-- An accepted scan registers the library, accepts every token and is well-formed at the end. -/
theorem steps_of_scan (h : (scan settings maxDepth tokens p).result = .ok metrics) :
    ∃ n symbols t, p.symbols.registerLibrary = (.ok n, symbols) ∧
      Scan.scanTokens tokens (.begin settings maxDepth symbols p.lexemes) = .ok () t ∧
      Scan.checkStructure t.program.lexemes = .ok () ∧
      scan settings maxDepth tokens p = ⟨t.program, t.notes.reverse, .ok (t.summary tokens)⟩ := by
  cases hrun : Scan.run tokens (.begin settings maxDepth p.symbols p.lexemes) with
  | error e t =>
    unfold scan at h
    split at h
    · next hok => cases hrun.symm.trans hok
    · cases h
  | ok metrics' t =>
    obtain ⟨n, symbols, hr, hs, hc, rfl⟩ := Scan.run_eq_ok.mp hrun
    exact ⟨n, symbols, t, hr, hs, hc, scan_of_run hrun⟩

end Ttm.Program
