import Ttm.Proofs.Core.Output
import Ttm.Proofs.Postfix.Content

/-! Lexemes that stand for a structured statement, in postfix order. -/
namespace Ttm.Core

open Lexeme (Kind)
open Postfix (Level Tree Role)

variable {limits : Limits} {symbols : Symbol.Table} {level : Level} {xs ys : List Word}
  {ls : List Lexeme}

theorem forall₂_append_left {α β : Type} {R : α → β → Prop} {xs ys : List α} {bs : List β}
    (h : List.Forall₂ R (xs ++ ys) bs) :
    ∃ as cs, bs = as ++ cs ∧ List.Forall₂ R xs as ∧ List.Forall₂ R ys cs := by
  induction xs generalizing bs with
  | nil => exact ⟨[], bs, rfl, .nil, h⟩
  | cons x xs ih =>
    cases h with
    | cons hx hrest =>
      obtain ⟨as, cs, rfl, has, hcs⟩ := ih hrest
      exact ⟨_ :: as, cs, rfl, .cons hx has, hcs⟩

/-- Words and their lexemes side by side. -/
theorem exists_pairs {α β : Type} {R : α → β → Prop} {xs : List α} {bs : List β}
    (h : List.Forall₂ R xs bs) :
    ∃ pairs : List (α × β), pairs.map Prod.fst = xs ∧ pairs.map Prod.snd = bs ∧
      ∀ pair ∈ pairs, R pair.1 pair.2 := by
  induction h with
  | nil => exact ⟨[], rfl, rfl, by simp⟩
  | @cons x b xs bs hx _ ih =>
    obtain ⟨pairs, rfl, rfl, hpairs⟩ := ih
    exact ⟨(x, b) :: pairs, rfl, rfl, List.forall_mem_cons.mpr ⟨hx, hpairs⟩⟩

/-- Lexemes of a structured text have its structure, and their postfix order stands for its. -/
theorem exists_structure {t : Tree Word level} (ht : t.Proper Word.role)
    (h : List.Forall₂ (Stands symbols) t.tokens ls) :
    ∃ u : Tree Lexeme level, u.tokens = ls ∧ u.Proper (Postfix.roleIn symbols) ∧
      List.Forall₂ (Stands symbols) (t.postfixOrder.map Word.marked)
        (u.postfixOrder.map (Postfix.markCall symbols)) := by
  obtain ⟨pairs, hfst, hsnd, hpairs⟩ := exists_pairs h
  obtain ⟨v, rfl, rfl⟩ := Tree.exists_of_map_eq_tokens Prod.fst t hfst
  have hrole := (Tree.proper_map Prod.fst v).mp ht
  refine ⟨v.map Prod.snd, by rw [Tree.tokens_map, hsnd], ?_, ?_⟩
  · rw [Tree.proper_map]
    exact hrole.mono fun pair hpair r hr => roleIn_of_stands (hpairs pair hpair) hr
  · rw [Tree.postfixOrder_map, Tree.postfixOrder_map, List.map_map, List.map_map,
      List.forall₂_map_left_iff, List.forall₂_map_right_iff, List.forall₂_same]
    intro pair hpair
    have hpair := Tree.mem_tokens_of_mem_postfixOrder hpair
    obtain ⟨r, hr⟩ := hrole.role_of_mem hpair
    exact stands_markCall (hpairs pair hpair) hr

theorem isTerminator_of_role {l : Lexeme} {r : Role} (h : Postfix.roleIn symbols l = some r) :
    Postfix.isTerminator l = false := by
  rcases Postfix.roleIn_cases h with ⟨-, hk, -⟩ | ⟨-, -, hr⟩
  · rw [Postfix.isTerminator, hk]
    rfl
  · cases hk : l.kind <;> first
      | (rw [Postfix.isTerminator, hk]; rfl)
      | (rw [Postfix.role, hk] at hr; cases hr)

/-- The expression of a statement in postfix order. -/
def Statement.code (trees : Structures) (scope : String) (s : Statement) : List Word :=
  (trees scope s).postfixOrder.map Word.marked

/-- The statement at the head of a text is put into postfix order. -/
theorem convertFirst_of_stands {trees : Structures} {scope : String} {s : Statement}
    (hs : (trees scope s).Proper Word.role)
    (hlength : (trees scope s).tokens.length + 1 ≤ Limits.maxStatementLength)
    (h : List.Forall₂ (Stands symbols) ((trees scope s).tokens ++ [semicolon]) ls) :
    ∃ reordered, List.Forall₂ (Stands symbols) (s.code trees scope ++ [semicolon]) reordered ∧
      ls.length - reordered.length =
        (trees scope s).tokens.length - (trees scope s).postfixOrder.length ∧
      ∀ start rest,
        Postfix.convertFirst symbols start (ls ++ rest) = .ok (reordered, ls.length, rest) := by
  obtain ⟨ts, terminators, rfl, hts, hterminator⟩ := forall₂_append_left h
  cases hterminator with
  | @cons _ terminator _ _ hterminator hnil =>
  cases hnil
  obtain ⟨u, rfl, hu, hreordered⟩ := exists_structure hs hts
  have hkind : terminator.kind = .semicolon := hterminator.kind
  have hinner : ∀ l ∈ u.tokens, Postfix.isTerminator l = false := by
    intro l hl
    obtain ⟨r, hr⟩ := hu.role_of_mem hl
    exact isTerminator_of_role hr
  have hterminates := Postfix.isTerminator_iff.mpr hkind
  have hlength' : u.tokens.length + 1 ≤ Limits.maxStatementLength := by
    rw [← hts.length_eq]
    exact hlength
  refine ⟨_, List.rel_append hreordered (.cons hterminator .nil), ?_, fun start rest => ?_⟩
  · have hlength := hreordered.length_eq
    rw [List.length_map] at hlength
    rw [List.length_append, List.length_append, ← hts.length_eq, ← hlength]
    exact Nat.add_sub_add_right _ _ _
  have hsplit : Postfix.splitStatement (u.tokens ++ [terminator] ++ rest) =
      some (u.tokens ++ [terminator], rest) :=
    Postfix.splitStatement_eq_some.mpr ⟨_, _, rfl, hterminates, hinner, rfl⟩
  rw [Postfix.convertFirst, hsplit]
  simp only [Postfix.ofStatement_tokens hu hkind hlength']

end Ttm.Core
