import Ttm.Proofs.Core.Syntax
import Ttm.Proofs.Program.Step

/-! What a scan knows between two words of a program, and what it has written. -/
namespace Ttm.Core

open Lexeme (Kind)
open Program.Scan (State)
open Ttm.Symbol (Declaration Key)

/-- A place between two words: the names declared so far, the function, and how many brackets are
open. -/
structure Place where
  declared : List Declaration
  scope : String
  nest : Nat

/-- The next word is no declaration. -/
def Settled (kinds : List Kind) : Prop :=
  (∀ k ∈ kinds.reverse[0]?, k ≠ .fnWord ∧ k ≠ .letWord ∧ k ≠ .datatype) ∧
  ∀ k ∈ kinds.reverse[1]?, k ≠ .fnWord ∧ k ≠ .letWord

/-- A minus behind a lexeme of this kind is a sign. -/
def expects (k : Kind) : Bool := k == .assign || k == .openParen || k == .retWord

/-- A scan at a place. `all` are the keys of the whole program, `limit` bounds the open brackets. -/
structure At (all : List Key) (limit : Nat) (p : Place) (signs : Signs) (s : State) : Prop where
  fits : s.program.symbols.Fits all
  knows : s.program.symbols.Knows p.declared
  function : s.function = p.scope
  scopes : s.scopes.current :: s.scopes.saved =
    List.replicate p.nest p.scope ++ [Symbol.globalScope]
  limit : s.scopes.maxDepth = limit
  waiting : s.signOpen = signs.waiting
  allowed : s.program.lexemes.kinds.getLast?.any expects = signs.allowed

/-- A scan goes on from `s` to `t` and writes lexemes that stand for `ws`. -/
structure Writes (s t : State) (ws : List Word) : Prop where
  symbols : ∀ i x, s.program.symbols.get? i = some x → t.program.symbols.get? i = some x
  capacity : t.program.lexemes.capacity = s.program.lexemes.capacity
  lexemes : ∃ ls, t.program.lexemes.toList = s.program.lexemes.toList ++ ls ∧
    List.Forall₂ (Stands t.program.symbols) ws ls

variable {all : List Key} {limit : Nat} {p : Place} {signs : Signs} {s t u : State}
  {w : Word} {xs ys : List Word} {l : Lexeme} {k : Kind} {earlier : List Kind}

theorem expectsOperand_eq : w.expectsOperand = expects w.kind := by
  cases w <;> rfl

theorem Settled.declarationKind? (h : Settled s.program.lexemes.kinds) :
    s.declarationKind? = none := by
  obtain ⟨hlast, hsecond⟩ := h
  simp only [State.declarationKind?, Lexeme.Table.declaresFunction,
    Lexeme.Table.declaresVariable, Lexeme.Table.declaresDatatype,
    Lexeme.Table.kindFromEnd?_eq]
  cases hl : s.program.lexemes.kinds.reverse[0]? with
  | none =>
    have hnil : s.program.lexemes.kinds.reverse[1]? = none :=
      List.getElem?_eq_none (by rw [List.getElem?_eq_none_iff] at hl; omega)
    simp [hnil]
  | some last =>
    have hlast := hlast last hl
    cases hs : s.program.lexemes.kinds.reverse[1]? with
    | none => simp [hlast.2.2]
    | some second => simp [hlast.2.2, hsecond second hs]

theorem Settled.append {ks : List Kind} (h : Settled earlier)
    (hks : ∀ k ∈ ks, k ≠ .fnWord ∧ k ≠ .letWord ∧ k ≠ .datatype) : Settled (earlier ++ ks) := by
  induction ks generalizing earlier with
  | nil => rwa [List.append_nil]
  | cons k ks ih =>
    rw [List.append_cons]
    refine ih ?_ fun k hk => hks k (List.mem_cons_of_mem _ hk)
    rw [Settled, List.reverse_append]
    exact ⟨fun _ hlast => Option.mem_some.mp hlast ▸ hks k List.mem_cons_self,
      fun second hsecond => ⟨(h.1 second hsecond).1, (h.1 second hsecond).2.1⟩⟩

theorem settled_append_two {a b : Kind} (ha : a ≠ .fnWord ∧ a ≠ .letWord)
    (hb : b ≠ .fnWord ∧ b ≠ .letWord ∧ b ≠ .datatype) : Settled (earlier ++ [a] ++ [b]) := by
  rw [Settled, List.reverse_append, List.reverse_append]
  exact ⟨fun _ hlast => Option.mem_some.mp hlast ▸ hb,
    fun _ hsecond => Option.mem_some.mp hsecond ▸ ha⟩

theorem expectsOperand_state : s.expectsOperand = s.program.lexemes.kinds.getLast?.any expects := by
  have hlast : s.program.lexemes.last?.map (·.kind) = s.program.lexemes.kinds.getLast? := by
    rw [Lexeme.Table.kinds, List.getLast?_map, Lexeme.Table.toList, Array.getLast?_toList]
    rfl
  rw [State.expectsOperand, hlast]
  rfl

theorem At.expectsOperand (h : At all limit p signs s) : s.expectsOperand = signs.allowed :=
  expectsOperand_state.trans h.allowed

theorem At.addLexeme (h : At all limit p signs s) :
    At all limit p ⟨signs.waiting, expects l.kind⟩ (s.addLexeme l) where
  fits := h.fits
  knows := h.knows
  function := h.function
  scopes := h.scopes
  limit := h.limit
  waiting := h.waiting
  allowed := by
    show (s.program.lexemes.add l).kinds.getLast?.any expects = _
    rw [Lexeme.Table.kinds_add, List.getLast?_concat]
    rfl

theorem Writes.refl : Writes s s [] :=
  ⟨fun _ _ h => h, rfl, [], (List.append_nil _).symm, .nil⟩

theorem Stands.mono {symbols symbols' : Symbol.Table} (h : Stands symbols w l)
    (hs : ∀ i x, symbols.get? i = some x → symbols'.get? i = some x) : Stands symbols' w l := by
  obtain ⟨hk, hp⟩ := h
  refine ⟨hk, ?_⟩
  unfold Word.Points at hp ⊢
  cases hkey : w.key? with
  | none => rwa [hkey] at hp
  | some key =>
    rw [hkey] at hp
    obtain ⟨i, x, hi, hx, hrest⟩ := hp
    exact ⟨i, x, hi, hs i x hx, hrest⟩

theorem Writes.trans (hx : Writes s t xs) (hy : Writes t u ys) : Writes s u (xs ++ ys) := by
  obtain ⟨ls, hls, hxs⟩ := hx.lexemes
  obtain ⟨ms, hms, hys⟩ := hy.lexemes
  refine ⟨fun i x h => hy.symbols i x (hx.symbols i x h), hy.capacity.trans hx.capacity,
    ls ++ ms, by rw [hms, hls, List.append_assoc], ?_⟩
  exact List.rel_append (hxs.imp fun _ _ h => h.mono hy.symbols) hys

theorem Writes.size (h : Writes s t xs) :
    t.program.lexemes.size = s.program.lexemes.size + xs.length := by
  obtain ⟨ls, hls, hxs⟩ := h.lexemes
  rw [← Lexeme.Table.length_toList, hls, List.length_append, hxs.length_eq]
  rfl

theorem Writes.kinds (h : Writes s t xs) :
    t.program.lexemes.kinds = s.program.lexemes.kinds ++ xs.map Word.kind := by
  obtain ⟨ls, hls, hxs⟩ := h.lexemes
  have hkinds : ls.map (·.kind) = xs.map Word.kind := by
    clear h hls
    induction hxs with
    | nil => rfl
    | cons hw _ ih => rw [List.map_cons, List.map_cons, hw.kind, ih]
  rw [Lexeme.Table.kinds, hls, List.map_append, hkinds]
  rfl

theorem Writes.hasRoom {n : Nat} (h : Writes s t xs) :
    t.HasRoom n ↔ s.HasRoom (xs.length + n) := by
  unfold State.HasRoom
  rw [h.size, h.capacity, Nat.add_assoc]

/-- Symbols and notes may be added without anything being written. -/
theorem writes_of_lexemes (hl : t.program.lexemes = s.program.lexemes)
    (hs : ∀ i x, s.program.symbols.get? i = some x → t.program.symbols.get? i = some x) :
    Writes s t [] :=
  ⟨hs, congrArg _ hl, [], by rw [hl, List.append_nil], .nil⟩

theorem writes_addLexeme (h : Stands s.program.symbols w l) : Writes s (s.addLexeme l) [w] :=
  ⟨fun _ _ h => h, rfl, [l], Lexeme.Table.toList_add, .cons h .nil⟩

/-- A word that is neither a sign nor the operand of one is written as it is. -/
theorem At.write (h : At all limit p signs s) (hl : Stands s.program.symbols w l)
    (hsign : ¬ (signs.allowed ∧ w = Expr.minus)) (hoperand : ¬ (signs.waiting ∧ w.isOperand)) :
    At all limit p (signs.next w) (s.addLexeme l) ∧
      Writes s (s.addLexeme l) (signs.written w) := by
  constructor
  · have hnext : signs.next w = ⟨signs.waiting, expects l.kind⟩ := by
      rw [Signs.next, if_neg hsign, expectsOperand_eq, hl.kind]
      congr 1
      cases hw : signs.waiting
      · rfl
      · simpa [hw] using hoperand
    rw [hnext]
    exact h.addLexeme
  · rw [Signs.written, if_neg hsign, if_neg hoperand]
    exact writes_addLexeme hl

theorem At.quiet (h : At all limit p signs s) :
    At all limit p ⟨false, signs.allowed⟩ { s with signOpen := false } :=
  ⟨h.fits, h.knows, h.function, h.scopes, h.limit, rfl, h.allowed⟩

theorem stands_of_key {symbols : Symbol.Table} {line : Nat} (h : w.key? = none) :
    Stands symbols w ⟨w.kind, line, none⟩ :=
  ⟨rfl, by rw [Word.Points, h]⟩

end Ttm.Core
