import Mathlib
import Ttm.Proofs.Lexeme.Word
import Ttm.Proofs.Program.Piece

/-! What a name in front of an opening parenthesis stands for. -/
namespace Ttm.Program

open Lexeme (Kind)
open Source (Token)

/-- A function; or a variable or parameter, which is a global one or is declared by the lexeme at
`q`. The lookup of a name that is called does not ask for its kind. -/
def CallTarget (q : Nat) (x : Symbol) : Prop :=
  x.kind = .function ∧ x.scope = Symbol.globalScope ∨
    (x.kind = .var ∨ x.kind = .parameter) ∧
      (x.scope = Symbol.globalScope ∨ x.position = some q)

/-- The lexeme `l` at `q` refers to what can be called there. -/
def Calls (symbols : Symbol.Table) (q : Nat) (l : Lexeme) : Prop :=
  ∃ i x, l.symbol = some i ∧ symbols.get? i = some x ∧ CallTarget q x

/-- Names in front of an opening parenthesis refer to what can be called. -/
def CallsResolve (p : Program) : Prop :=
  ∀ q l, p.lexemes.get? q = some l → l.kind = .identifier →
    p.lexemes.kinds[q + 1]? = some .openParen → Calls p.symbols q l

/-- The last lexeme, if it is a name, refers to what can be called. -/
def LastCalls (p : Program) : Prop :=
  ∀ q l, p.lexemes.size = q + 1 → p.lexemes.get? q = some l → l.kind = .identifier →
    Calls p.symbols q l

section

variable {limits : Limits} {p u : Program} {l : Lexeme} {x : Symbol} {q index : Nat} {k : Kind}
  {symbols : Symbol.Table}

theorem Calls.add (h : Calls symbols q l) : Calls (symbols.add x) q l := by
  obtain ⟨i, y, hi, hy, htarget⟩ := h
  exact ⟨i, y, hi, Symbol.Table.get?_add hy, htarget⟩

theorem CallsResolve.attains (h : CallsResolve p) (ha : p.Attains k index u) :
    CallsResolve u := by
  cases ha with
  | known => exact h
  | added => exact fun q l hl hk hopen => (h q l hl hk hopen).add

theorem CallsResolve.addLexeme (h : CallsResolve p) (hopen : l.kind ≠ .openParen ∨ LastCalls p) :
    CallsResolve (p.addLexeme l) := by
  intro q m hm hk hnext
  have hlt := Lexeme.lt_of_getElem? hnext
  rw [Lexeme.Table.length_kinds, size_addLexeme] at hlt
  have hm : p.lexemes.get? q = some m := by
    rw [← Lexeme.Table.get?_add_of_lt (l := l) (by omega)]
    exact hm
  rw [kinds_addLexeme] at hnext
  rcases Lexeme.getElem?_concat.mp hnext with hnext | ⟨hq, hl⟩
  · exact h q m hm hk hnext
  · rw [Lexeme.Table.length_kinds] at hq
    exact (hopen.resolve_left fun hne => hne hl) q m hq.symm hm hk

theorem lastCalls_addLexeme (hl : l.kind = .identifier → Calls p.symbols p.lexemes.size l) :
    LastCalls (p.addLexeme l) := by
  intro q m hq hm hk
  rw [size_addLexeme] at hq
  obtain rfl : q = p.lexemes.size := by omega
  obtain rfl : l = m := Option.some.inj (Lexeme.Table.get?_add_self.symm.trans hm)
  exact hl hk

namespace Scan

variable {s t u : State} {token : Token} {called : Bool}

/-- Where a sign can stand, the lexeme before is no name. -/
theorem lastCalls_of_expectsOperand (h : s.expectsOperand) : LastCalls s.program := by
  obtain ⟨l, hl, htakes⟩ := expectsOperand_iff.mp h
  intro q m hq hm hk
  rw [List.getLast?_eq_getElem?, Lexeme.Table.length_toList, hq, Nat.add_sub_cancel,
    ← Lexeme.Table.get?_eq_getElem?, hm] at hl
  cases hl
  simp [Kind.takesSign, hk] at htakes

/-- A name that is called is found in the global scope, or is declared here. -/
theorem Resolves.callTarget (hr : Resolves token true s .identifier index u) (h : Ready s) :
    ∃ x, u.program.symbols.get? index = some x ∧ CallTarget s.program.lexemes.size x := by
  cases hr with
  | found hk hself hl hd =>
    obtain ⟨x, hx, hkey, hscope, -⟩ := h.1.indexed.get?_of_lookup hl
    have hsound := h.1.sound_get? hx
    have hliteral := hsound.kind_ne_literal hkey
    have hunknown := hsound.2.1
    refine ⟨x, hx, ?_⟩
    cases hkind : x.kind with
    | function => exact Or.inl ⟨hkind, hscope⟩
    | var => exact Or.inr ⟨Or.inl hkind, Or.inl hscope⟩
    | parameter => exact Or.inr ⟨Or.inr hkind, Or.inl hscope⟩
    | literal => exact absurd hkind hliteral
    | unknown => exact absurd hkind hunknown
  | @declared kind type hk hself hl hd ht hr =>
    rw [addDeclaration_prepare]
    refine ⟨_, Symbol.Table.get?_add_self, ?_⟩
    rcases declarationKind?_cases hd with rfl | rfl | rfl
    · exact Or.inl ⟨rfl, rfl⟩
    · exact Or.inr ⟨Or.inl rfl, Or.inr position_declaration⟩
    · exact Or.inr ⟨Or.inr rfl, Or.inr position_declaration⟩

/-- An accepted token keeps what calls refer to. The last lexeme can be called if an opening
parenthesis follows, and was when the token is one. -/
theorem Step.callsResolve (hs : Step token called s t) (hready : Ready s)
    (h : CallsResolve s.program) (hlast : token.text = Kind.openParen.text → LastCalls s.program) :
    CallsResolve t.program ∧ (called → LastCalls t.program) := by
  have hbare {p : Program} {k : Kind} (hp : CallsResolve p) (hk : k ≠ .identifier)
      (hopen : k ≠ .openParen ∨ LastCalls p) :
      CallsResolve (p.addLexeme ⟨k, token.line, none⟩) ∧
        (called → LastCalls (p.addLexeme ⟨k, token.line, none⟩)) :=
    ⟨hp.addLexeme hopen, fun _ => lastCalls_addLexeme fun h => absurd h hk⟩
  cases hs with
  | datatype hk ht room => exact hbare h (by decide) (Or.inl (by decide))
  | @refer k index u t hr hw =>
    have hu := h.attains (hr.attains hready)
    have hk : k ≠ .openParen := by
      rcases hr.kind with ⟨-, rfl⟩ | ⟨-, rfl⟩ | ⟨-, rfl⟩ <;> decide
    have hadd := hu.addLexeme (l := ⟨k, token.line, some index⟩) (Or.inl hk)
    cases hw with
    | plain hc room =>
      refine ⟨hadd, fun hcalled => lastCalls_addLexeme fun hidentifier => ?_⟩
      subst hcalled hidentifier
      obtain ⟨x, hx, htarget⟩ := hr.callTarget hready
      rw [hr.sameTable.lexemes]
      exact ⟨index, x, rfl, hx, htarget⟩
    | closing hc room => exact hbare hadd (by decide) (Or.inl (by decide))
  | @sign index u hk he room hi =>
    -- the bracket of a sign stands behind no name, so no call begins with it
    have hopen := h.addLexeme (l := ⟨.openParen, token.line, none⟩)
      (Or.inr (lastCalls_of_expectsOperand he))
    have hlinked : (s.addLexeme ⟨.openParen, token.line, none⟩).program.Linked :=
      hready.1.addLexeme (.bare (by decide) (by decide))
    have hzero := (hopen.attains (hi.attains hlinked (by decide))).addLexeme
      (l := ⟨.literal, token.line, some index⟩) (Or.inl fun h => by cases h)
    exact hbare hzero (by decide) (Or.inl (by decide))
  | minus hk he room => exact hbare h (by decide) (Or.inl (by decide))
  | enter hk hb hs room =>
    rcases hb with rfl | rfl
    · exact hbare h (by decide) (Or.inl (by decide))
    · have htext := (Lexeme.ofText?_eq_fixed (by decide)).mp hk
      exact hbare h (by decide) (Or.inr (hlast htext))
  | leave hk hb hs room =>
    rcases hb with rfl | rfl <;> exact hbare h (by decide) (Or.inl (by decide))
  | @plain k hk hp room =>
    have hne : k ≠ .identifier ∧ k ≠ .openParen := by
      constructor <;> rintro rfl <;> cases hp
    exact hbare h hne.1 (Or.inl hne.2)

end Scan

/-- In an accepted scan into empty tables, a name in front of an opening parenthesis refers to a
function, or to a global variable or one declared right there. -/
theorem scan_callsResolve {settings : ScanSettings} {maxDepth maxSymbols maxLexemes : Nat}
    {tokens : List Token} {metrics : Metrics}
    (h : (scan settings maxDepth tokens (empty maxSymbols maxLexemes)).result = .ok metrics) :
    CallsResolve (scan settings maxDepth tokens (empty maxSymbols maxLexemes)).program := by
  obtain ⟨n, symbols, t, hr, hs, -, hscan⟩ := steps_of_scan h
  rw [hscan]
  have hempty : CallsResolve ⟨symbols, .empty maxLexemes⟩ := fun q l hl => by cases hl
  have hrun := Scan.scanTokens_history
    (P := fun _ rest u => Scan.Ready u ∧ CallsResolve u.program ∧
      (Scan.opensCall rest → LastCalls u.program)) ?_
    ⟨ready_library hr, hempty, fun _ q l hq => by cases hq⟩ hs
  · exact hrun.2.1
  · rintro done token rest u v ⟨hready, hcalls, hlast⟩ hstep -
    exact ⟨hready.step hstep, hstep.callsResolve hready hcalls fun htext =>
      hlast (beq_iff_eq.mpr htext)⟩

end

attribute [local instance] Limits.development

/-- A global variable, and a function that calls it. -/
def calledVariable : List Token :=
  oneLine 1 ["let", "i32", "x", ";", "fn", "i32", "main", "(", ")", "\x7b", "x", "(", ")", ";",
    "\x7d"]

/-- The call of the variable is accepted, and refers to it. -/
theorem callsResolve_calledVariable :
    CallsResolve (scan {} 2 calledVariable (empty 7 15)).program ∧
    (scan {} 2 calledVariable (empty 7 15)).program.lexemes.get? 10 =
      some ⟨.identifier, 1, some 5⟩ ∧
    (scan {} 2 calledVariable (empty 7 15)).program.lexemes.get? 11 = some ⟨.openParen, 1, none⟩ ∧
    (scan {} 2 calledVariable (empty 7 15)).program.symbols.get? 5 =
      some ⟨"x", "", some 2, .i32, .var, none⟩ := by
  have hresult : (scan {} 2 calledVariable (empty 7 15)).result = .ok
      { tokens := 15, lexemes := 15, symbols := 7, declarations := 2, maxScopeDepth := 2 } := by
    cbv
  exact ⟨scan_callsResolve hresult, by cbv, by cbv, by cbv⟩

end Ttm.Program
