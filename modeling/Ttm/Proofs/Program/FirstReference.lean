import Std.Data.String.ToNat
import Ttm.Proofs.Program.CrossReference

/-! Behind one scan into empty tables, every symbol stands where it is first used. -/
namespace Ttm.Program

open Lexeme (Kind)
open Source (Token)
open Ttm.Symbol (Signature)

/-- The lexeme at `q` is the first that refers to symbol `i`. -/
def FirstReference (lexemes : Lexeme.Table) (i q : Nat) : Prop :=
  (∃ l, lexemes.get? q = some l ∧ l.symbol = some i) ∧
    ∀ r l, r < q → lexemes.get? r = some l → l.symbol ≠ some i

/-- What holds moreover behind one scan into empty tables. -/
structure FirstReferenced (p : Program) : Prop where
  library : p.symbols.toList.take 5 = Signature.library
  position : ∀ i x, 5 ≤ i → p.symbols.get? i = some x →
    ∃ q, x.position = some q ∧ FirstReference p.lexemes i q
  increasing : ∀ i j x y q r, 5 ≤ i → i < j → p.symbols.get? i = some x →
    p.symbols.get? j = some y → x.position = some q → y.position = some r → q < r
  names : ∀ i j x y, p.symbols.get? i = some x → p.symbols.get? j = some y →
    x.kind = .literal → y.kind = .literal → x.name = y.name → i = j

/-- What holds while one scan fills empty tables. -/
structure Traced (p : Program) : Prop where
  linked : p.Linked
  library : Signature.library <+: p.symbols.toList
  position : ∀ i x, 5 ≤ i → p.symbols.get? i = some x →
    ∃ q, x.position = some q ∧ FirstReference p.lexemes i q
  increasing : ∀ i j x y q r, 5 ≤ i → i < j → p.symbols.get? i = some x →
    p.symbols.get? j = some y → x.position = some q → y.position = some r → q < r

section

variable {limits : Limits} {p u : Program} {k : Kind} {l : Lexeme} {lexemes : Lexeme.Table}
  {i q line : Nat} {x : Symbol}

theorem FirstReference.lt (h : FirstReference lexemes i q) : q < lexemes.size := by
  obtain ⟨⟨l, hl, -⟩, -⟩ := h
  exact Lexeme.Table.get?_lt hl

theorem FirstReference.add (h : FirstReference lexemes i q) :
    FirstReference (lexemes.add l) i q := by
  have hlt := h.lt
  obtain ⟨⟨m, hm, hi⟩, hnone⟩ := h
  refine ⟨⟨m, Lexeme.Table.get?_add hm, hi⟩, ?_⟩
  intro r n hr hn
  rw [Lexeme.Table.get?_add_of_lt (Nat.lt_trans hr hlt)] at hn
  exact hnone r n hr hn

theorem Traced.addLexeme (h : Traced p) (hl : l.Linked p.symbols) : Traced (p.addLexeme l) := by
  refine ⟨h.linked.addLexeme hl, h.library, ?_, h.increasing⟩
  intro i x hi hx
  obtain ⟨q, hq, hfirst⟩ := h.position i x hi hx
  exact ⟨q, hq, hfirst.add⟩

theorem Linked.lt_size (h : Linked p) (hl : l ∈ p.lexemes.toList) (hi : l.symbol = some i) :
    i < p.symbols.size :=
  h.crossReferenced.inside l hl i hi

/-- A new symbol is first referred to by the lexeme that comes with it. -/
theorem Traced.add (h : Traced p) (hlinked : Linked (p.addSymbol x))
    (hx : x.position = some p.lexemes.size)
    (hl : (⟨k, line, some p.symbols.size⟩ : Lexeme).Linked (p.symbols.add x)) :
    Traced ((p.addSymbol x).addLexeme ⟨k, line, some p.symbols.size⟩) := by
  constructor
  · exact hlinked.addLexeme hl
  · refine h.library.trans ?_
    show p.symbols.toList <+: (p.symbols.add x).toList
    rw [Symbol.Table.toList_add]
    exact List.prefix_append _ _
  · intro i y hi hy
    rcases Symbol.Table.get?_add_eq_some hy with hy | ⟨rfl, rfl⟩
    · obtain ⟨q, hq, hfirst⟩ := h.position i y hi hy
      exact ⟨q, hq, hfirst.add⟩
    · refine ⟨p.lexemes.size, hx, ⟨_, Lexeme.Table.get?_add_self, rfl⟩, ?_⟩
      intro r m hr hm hsymbol
      have hm : p.lexemes.get? r = some m := (Lexeme.Table.get?_add_of_lt hr).symm.trans hm
      have hlt := h.linked.lt_size (Lexeme.Table.mem_toList_of_get? hm) hsymbol
      omega
  · intro i j y z q r hi hij hy hz hq hr
    rcases Symbol.Table.get?_add_eq_some hz with hz' | ⟨rfl, rfl⟩
    · have hj := Symbol.Table.get?_lt hz'
      rcases Symbol.Table.get?_add_eq_some hy with hy' | ⟨rfl, rfl⟩
      · exact h.increasing i j y z q r hi hij hy' hz' hq hr
      · omega
    · rcases Symbol.Table.get?_add_eq_some hy with hy' | ⟨rfl, rfl⟩
      · obtain ⟨q', hq', hfirst⟩ := h.position i y hi hy'
        obtain rfl : q' = q := Option.some.inj (hq'.symm.trans hq)
        obtain rfl : p.lexemes.size = r := Option.some.inj (hx.symm.trans hr)
        exact hfirst.lt
      · omega

theorem Attains.traced (ha : Attains p k i u) (h : Traced p) (line : Nat) :
    Traced (u.addLexeme ⟨k, line, some i⟩) := by
  cases ha with
  | known hx hs => exact h.addLexeme (.pointing hx hs)
  | added hr hx hs hp =>
    exact h.add (h.linked.addSymbol hr hx) hp (.pointing Symbol.Table.get?_add_self hs)

theorem Grows.traced (hg : Grows p u) (h : Traced p) : Traced u := by
  induction hg with
  | refl => exact h
  | bare _ hk hw ih => exact ih.addLexeme (.bare hk hw)
  | refer _ ha ih => exact ha.traced ih _

theorem Traced.firstReferenced (h : Traced p) : FirstReferenced p := by
  have hlength : Signature.library.length = 5 := by decide
  have htake : p.symbols.toList.take 5 = Signature.library := by
    rw [← hlength]
    exact List.prefix_iff_eq_take.mp h.library |>.symm
  have hposition (i : Nat) (x : Symbol) (hx : p.symbols.get? i = some x) (hk : x.kind = .literal) :
      5 ≤ i ∧ ∃ q, x.position = some q ∧ x.name = s!"L{q}" := by
    refine ⟨?_, ((h.linked.sound_get? hx).2.2.1 hk).2⟩
    rcases Nat.lt_or_ge i 5 with hi | hi
    case inr => exact hi
    have hmem : x ∈ Signature.library := by
      rw [← htake]
      rw [Symbol.Table.get?_eq_getElem?] at hx
      exact List.mem_of_getElem? (List.getElem?_take_of_lt (by omega) ▸ hx)
    have hnot : ∀ x ∈ Signature.library, x.kind ≠ .literal := by decide
    exact absurd hk (hnot x hmem)
  refine ⟨htake, h.position, h.increasing, ?_⟩
  intro i j x y hx hy hxk hyk hname
  obtain ⟨hi, q, hq, hqn⟩ := hposition i x hx hxk
  obtain ⟨hj, r, hr, hrn⟩ := hposition j y hy hyk
  have hqr : q = r := by
    rw [hqn, hrn] at hname
    exact Nat.repr_injective (String.append_right_inj _ |>.mp hname)
  rcases Nat.lt_trichotomy i j with hlt | heq | hlt
  · have := h.increasing i j x y q r hi hlt hx hy hq hr
    omega
  · exact heq
  · have := h.increasing j i y x r q hj hlt hy hx hr hq
    omega

theorem traced_library {maxSymbols maxLexemes : Nat} {symbols : Symbol.Table} {n : Nat}
    (h : (Symbol.Table.empty maxSymbols).registerLibrary = (.ok n, symbols)) :
    Traced ⟨symbols, .empty maxLexemes⟩ := by
  have hlist := Symbol.Table.toList_of_registerLibrary h
  have hlinked := (linked_empty maxSymbols maxLexemes).registerLibrary
  have hsize : symbols.toList.length = 5 := by
    rw [hlist]
    decide
  have hlt {i : Nat} {x : Symbol} (hx : symbols.get? i = some x) : i < 5 :=
    hsize ▸ Symbol.Table.get?_lt hx
  refine ⟨?_, hlist ▸ List.prefix_rfl, ?_, ?_⟩
  · simpa only [empty, h] using hlinked
  · intro i x hi hx
    have := hlt hx
    omega
  · intro i j x y q r hi hij hx
    have := hlt hx
    omega

/-- Whatever scans did to the tables, they point into each other; and behind one accepted scan into
empty tables every symbol stands at its first use. -/
theorem scan_crossReferenced (maxSymbols maxLexemes : Nat) :
    (∀ runs, CrossReferenced (scanAll runs (empty maxSymbols maxLexemes))) ∧
    ∀ settings maxDepth tokens metrics,
      (scan settings maxDepth tokens (empty maxSymbols maxLexemes)).result = .ok metrics →
        FirstReferenced (scan settings maxDepth tokens (empty maxSymbols maxLexemes)).program := by
  refine ⟨fun runs => ((linked_empty _ _).scanAll runs).crossReferenced, ?_⟩
  intro settings maxDepth tokens metrics h
  obtain ⟨n, symbols, t, hr, hu, -, heq⟩ := steps_of_scan h
  rw [heq]
  have htraced : Traced ⟨symbols, .empty maxLexemes⟩ := traced_library hr
  have hinv := Scan.scanTokens_induction
    (P := fun s => Traced s.program ∧ s.pendingType ≠ some .undefined)
    (fun token called s t hs hstep => ?_) ⟨htraced, by simp [Scan.State.begin]⟩ hu
  · exact hinv.1.firstReferenced
  · obtain ⟨hgrows, hpending⟩ := hstep.grows ⟨hs.1.linked, hs.2⟩
    exact ⟨hgrows.traced hs.1, hpending⟩

end

attribute [local instance] Limits.development

/-- A variable of the entry point and a literal with a sign. -/
def signedVariable : List Token :=
  ["fn", "i32", "main", "let", "i32", "x", "=", "-", "2"].map (⟨·, 1⟩)

/-- Its symbols behind the library, each with its place among the lexemes. The third one is the zero
that the sign is given. -/
def signedVariableMain : Symbol :=
  .declared Kind.mainWord.text Symbol.globalScope 2 .i32 .function

def signedVariableX : Symbol := .declared "x" Symbol.globalScope 5 .i32 .var

def signedVariableZero : Symbol := .literal 8 .i32 "0"

def signedVariableTwo : Symbol := .literal 10 .i32 "2"

theorem result_signedVariable :
    ∃ metrics, (scan {} 0 signedVariable (empty 9 12)).result = .ok metrics := by
  obtain ⟨u, hu, hindexed, hlist, hcapacity⟩ :=
    Symbol.Table.registerLibrary_empty (show 5 ≤ 9 by decide)
  have hsize : u.size = 5 := by
    rw [← Symbol.Table.length_toList, hlist]
    rfl
  have hvalue (value : String) : u.lookupLiteral .i32 value = none := by
    rw [hindexed.lookupLiteral, hlist]
    rfl
  have hmain : u.lookup Symbol.globalScope Kind.mainWord.text = none := by
    rw [hindexed.lookup, hlist]
    decide
  have hx : (u.add signedVariableMain).lookup Symbol.globalScope "x" = none := by
    rw [Symbol.Table.lookup_add rfl, if_neg (by decide), hindexed.lookup, hlist]
    decide
  have hzero : ((u.add signedVariableMain).add signedVariableX).lookupLiteral .i32 "0" = none := by
    rw [Symbol.Table.lookupLiteral_add_of_none rfl, Symbol.Table.lookupLiteral_add_of_none rfl,
      hvalue]
  have htwo : (((u.add signedVariableMain).add signedVariableX).add
      signedVariableZero).lookupLiteral .i32 "2" = none := by
    rw [Symbol.Table.lookupLiteral_add (x := signedVariableZero) rfl,
      Symbol.Table.lookupLiteral_add_of_none rfl, Symbol.Table.lookupLiteral_add_of_none rfl,
      hvalue]
    rfl
  have hmainRoom : u.refusal? signedVariableMain = none :=
    Symbol.Table.refusal?_eq_none.mpr ⟨by omega, fun _ => hmain⟩
  have hxRoom : (u.add signedVariableMain).refusal? signedVariableX = none :=
    Symbol.Table.refusal?_eq_none.mpr ⟨by simp [hsize, hcapacity], fun _ => hx⟩
  have hzeroRoom : ((u.add signedVariableMain).add signedVariableX).refusal?
      signedVariableZero = none :=
    Symbol.Table.refusal?_eq_none.mpr ⟨by simp [hsize, hcapacity], nofun⟩
  have htwoRoom : (((u.add signedVariableMain).add signedVariableX).add
      signedVariableZero).refusal? signedVariableTwo = none :=
    Symbol.Table.refusal?_eq_none.mpr ⟨by simp [hsize, hcapacity], nofun⟩
  have hxSelf : "x" = Symbol.globalScope → false = true := by decide
  have htwoValue : Scan.literal? "2" = some (.i32, "2") := by decide
  have room {m n : Nat} (h : Nat.ble m n = true) : m ≤ n := Nat.le_of_ble_eq_true h
  have hrun : ∃ t, Scan.scanTokens signedVariable (.begin {} 0 u (.empty 12)) = .ok () t ∧
      t.program.lexemes.kinds = [.fnWord, .datatype, .mainWord, .letWord, .datatype, .identifier,
        .assign, .openParen, .literal, .minus, .literal, .closeParen] := by
    exact ⟨_,
      Scan.scanTokens_cons_eq_ok.mpr ⟨_, .plain (k := .fnWord) (by decide) rfl (room rfl),
      Scan.scanTokens_cons_eq_ok.mpr ⟨_, .datatype (k := .i32) (by decide) rfl (room rfl),
      Scan.scanTokens_cons_eq_ok.mpr ⟨_, .refer (.mainDeclared (by decide) hmain rfl rfl
        hmainRoom) (.plain rfl (room rfl)),
      Scan.scanTokens_cons_eq_ok.mpr ⟨_, .plain (k := .letWord) (by decide) rfl (room rfl),
      Scan.scanTokens_cons_eq_ok.mpr ⟨_, .datatype (k := .i32) (by decide) rfl (room rfl),
      Scan.scanTokens_cons_eq_ok.mpr ⟨_, .refer (.declared (by decide) hxSelf hx rfl rfl
        hxRoom) (.plain rfl (room rfl)),
      Scan.scanTokens_cons_eq_ok.mpr ⟨_, .plain (k := .assign) (by decide) rfl (room rfl),
      Scan.scanTokens_cons_eq_ok.mpr ⟨_, .sign (by decide) rfl (room rfl) (.added hzero hzeroRoom),
      Scan.scanTokens_cons_eq_ok.mpr ⟨_, .refer (.literal htwoValue (.added htwo htwoRoom))
        (.closing rfl (room rfl)), rfl⟩⟩⟩⟩⟩⟩⟩⟩⟩, rfl⟩
  obtain ⟨t, ht, hkinds⟩ := hrun
  have hstructure : Scan.checkStructure t.program.lexemes = .ok () := by
    rw [Scan.checkStructure_eq_ok, hkinds]
    decide
  exact ⟨t.summary signedVariable, congrArg Scanned.result (scan_of_steps hu ht hstructure)⟩

theorem firstReferenced_signedVariable :
    FirstReferenced (scan {} 0 signedVariable (empty 9 12)).program := by
  obtain ⟨metrics, h⟩ := result_signedVariable
  exact (scan_crossReferenced 9 12).2 {} 0 signedVariable metrics h

end Ttm.Program
