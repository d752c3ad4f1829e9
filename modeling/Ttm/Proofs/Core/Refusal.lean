import Ttm.Proofs.Core.Bracket
import Ttm.Proofs.Core.Convert
import Ttm.Proofs.Core.Tables
import Ttm.Proofs.Postfix.Tally

/-! A program with a sign that never gets its bracket is not put into postfix order. -/
namespace Ttm.Core

open Lexeme (Kind)
open Postfix (Level Tree Role Pass walk)

/-- Every sign of a statement gets its bracket. -/
def Statement.Served (scope : String) (s : Statement) : Prop :=
  Signs.Served ⟨false, s.allowsSign⟩ (s.expression.words scope)

instance (scope : String) (s : Statement) : Decidable (s.Served scope) :=
  inferInstanceAs (Decidable (Signs.Served _ _))

/-- Every sign of a program gets its bracket. -/
def Served (fs : List Function) : Prop := ∀ f ∈ fs, ∀ s ∈ f.body, s.Served f.name

instance (fs : List Function) : Decidable (Served fs) :=
  inferInstanceAs (Decidable (∀ f ∈ fs, ∀ s ∈ f.body, s.Served f.name))

variable {limits : Limits} {symbols : Symbol.Table} {previous q : Option Kind}
  {ws xs ys tail : List Word} {w : Word} {l : Lexeme} {ls : List Lexeme} {scope : String}
  {s : Statement} {trees : Structures}

/-- Structures for all statements whose signs get their brackets. -/
theorem exists_structures : ∃ trees : Structures, ∀ scope s, s.Served scope →
    Structured trees scope s := by
  have hexists (scope : String) (s : Statement) : ∃ t : Tree Word .list, s.Served scope →
      t.Proper Word.role ∧ Signs.Reads ⟨false, s.allowsSign⟩ (s.expression.words scope) t.tokens
        Signs.quiet := by
    by_cases hs : s.Served scope
    · obtain ⟨t, ht⟩ := s.expression.exists_tree_of_served scope hs
      exact ⟨t, fun _ => ht⟩
    · exact ⟨.ofSum (s.expression.tree scope), fun hserved => absurd hserved hs⟩
  choose trees htrees using hexists
  exact ⟨trees, fun scope s hs => ⟨(htrees scope s hs).1, (htrees scope s hs).2⟩⟩

/-- No semicolon stands in an expression. -/
theorem kind_words {level : Level} {first : Bool} (e : Expr level first) :
    ∀ w ∈ e.words scope, w.kind ≠ .semicolon := by
  have harithmetic {k : Kind} (hk : k.isArithmetic) : (Word.mark k).kind ≠ .semicolon := by
    rintro rfl
    cases hk
  have hbinary {xs ys : List Word} {w : Word} (hx : ∀ x ∈ xs, x.kind ≠ .semicolon)
      (hw : w.kind ≠ .semicolon) (hy : ∀ y ∈ ys, y.kind ≠ .semicolon) :
      ∀ x ∈ xs ++ w :: ys, x.kind ≠ .semicolon :=
    List.forall_mem_append.mpr ⟨hx, List.forall_mem_cons.mpr ⟨hw, hy⟩⟩
  induction e with
  | integer | text | var => simp [Expr.words, Word.kind]
  | callNone => simp [Expr.words, Word.kind, Expr.opening, Expr.closing]
  | group e ih => exact @hbinary [] _ _ (by simp) (by decide) (hbinary ih (by decide) (by simp))
  | call callee e ih =>
    exact @hbinary [.callee callee e.arity] _ _ (by simp [Word.kind]) (by decide)
      (hbinary ih (by decide) (by simp))
  | negate e ih => exact @hbinary [] _ _ (by simp) (by decide) ih
  | ofFactor e ih | ofProduct e ih | ofSum e ih => exact ih
  | multiply left operator right ihl ihr =>
    exact hbinary ihl (harithmetic (Postfix.priority_of_multiplicative operator.2).1) ihr
  | add left operator right ihl ihr =>
    exact hbinary ihl (harithmetic (Postfix.priority_of_additive operator.2).1) ihr
  | append left right ihl ihr => exact hbinary ihl (by decide) ihr

theorem kind_rewrite {signs : Signs} (h : ∀ w ∈ ws, w.kind ≠ .semicolon) :
    ∀ w ∈ signs.rewrite ws, w.kind ≠ .semicolon := by
  induction ws generalizing signs with
  | nil => simp [Signs.rewrite]
  | cons w ws ih =>
    intro x hx
    rcases List.mem_append.mp hx with hx | hx
    · have hw := h w List.mem_cons_self
      unfold Signs.written at hx
      split at hx
      · simp only [List.mem_cons, List.not_mem_nil, or_false] at hx
        rcases hx with rfl | rfl | rfl <;> decide
      · split at hx
        · simp only [List.mem_cons, List.not_mem_nil, or_false] at hx
          rcases hx with rfl | rfl
          · exact hw
          · decide
        · rwa [List.mem_singleton.mp hx]
    · exact ih (fun y hy => h y (List.mem_cons_of_mem w hy)) x hx

/-- An expression with a parenthesis left open is refused. -/
theorem convertFirst_of_unpaired (hinner : ∀ w ∈ xs, w.kind ≠ .semicolon)
    (hunpaired : excess .openParen .closeParen xs ≠ 0)
    (h : List.Forall₂ (Stands symbols) (xs ++ [semicolon]) ls) (start : Nat)
    (rest : List Lexeme) : ∃ e, Postfix.convertFirst symbols start (ls ++ rest) = .error e := by
  obtain ⟨as, terminators, rfl, has, hterminator⟩ := forall₂_append_left h
  cases hterminator with
  | @cons _ terminator _ _ hterminator hnil =>
  cases hnil
  have hkinds := map_kind_of_stands h
  have hterminates := Postfix.isTerminator_iff.mpr hterminator.kind
  have hopen : ∀ l ∈ as, Postfix.isTerminator l = false := by
    intro l hl
    have hkind : l.kind ∈ xs.map Word.kind := by
      rw [← map_kind_of_stands has]
      exact List.mem_map_of_mem hl
    obtain ⟨w, hw, hkind⟩ := List.mem_map.mp hkind
    rw [Postfix.isTerminator, ← hkind]
    exact beq_eq_false_iff_ne.mpr (hinner w hw)
  have hsplit : Postfix.splitStatement (as ++ [terminator] ++ rest) =
      some (as ++ [terminator], rest) :=
    Postfix.splitStatement_eq_some.mpr ⟨_, _, rfl, hterminates, hopen, rfl⟩
  rw [Postfix.convertFirst, hsplit]
  dsimp only
  cases hresult : Postfix.ofStatement symbols (as ++ [terminator]) with
  | error reason => exact ⟨_, rfl⟩
  | ok reordered =>
    have hcount := Postfix.count_of_ofStatement hresult
    rw [hkinds] at hcount
    have hpaired : excess .openParen .closeParen (xs ++ [semicolon]) = 0 := by
      unfold excess
      omega
    rw [excess_append] at hpaired
    exact absurd ((Int.add_zero _).symm.trans hpaired) hunpaired

/-- Conversion of lexemes of `ws` fails, whatever comes behind. -/
def Fails [Limits] (symbols : Symbol.Table) (previous : Option Kind) (ws : List Word) : Prop :=
  ∀ ls, List.Forall₂ (Stands symbols) ws ls →
    ∀ index p rest, ∃ e, (walk symbols index previous p (ls ++ rest)).1 = .error e

theorem Fails.append (hx : Fails symbols previous xs) : Fails symbols previous (xs ++ ys) := by
  intro ls hls index p rest
  obtain ⟨as, bs, rfl, has, -⟩ := forall₂_append_left hls
  rw [List.append_assoc]
  exact hx as has index p (bs ++ rest)

theorem Converts.fails {out : List Word} (hx : Converts symbols previous xs out q)
    (hy : Fails symbols q ys) : Fails symbols previous (xs ++ ys) := by
  intro ls hls index p rest
  obtain ⟨as, bs, rfl, has, hbs⟩ := forall₂_append_left hls
  obtain ⟨_, -, hwalk⟩ := hx as has
  obtain ⟨index', p', -, h⟩ := hwalk index p (bs ++ rest)
  rw [List.append_assoc, h]
  exact hy bs hbs index' p' rest

/-- The expression behind `=`, `ret` or `echo` is refused. -/
theorem Fails.behind {k : Kind} (hk : k = .assign ∨ k = .retWord ∨ k = .echoWord)
    (hinner : ∀ w ∈ xs, w.kind ≠ .semicolon)
    (hunpaired : excess .openParen .closeParen xs ≠ 0) :
    Fails symbols previous (.mark k :: (xs ++ [semicolon])) := by
  intro ls hls index p rest
  cases hls with
  | @cons _ l _ ls hl hls =>
  obtain ⟨hpadding, hstart⟩ := @startAt_behind symbols previous l k hk hl
  obtain ⟨e, he⟩ := convertFirst_of_unpaired hinner hunpaired hls (index + 1) rest
  exact ⟨e, by rw [List.cons_append, Postfix.walk_behind hpadding hstart, he]⟩

/-- A statement that is a call is refused. -/
theorem Fails.here {callee : String} {arity : Nat} (hprevious : Postfix.endsStatement previous)
    (hinner : ∀ w ∈ Word.callee callee arity :: xs, w.kind ≠ .semicolon)
    (hunpaired : excess .openParen .closeParen (.callee callee arity :: xs) ≠ 0) :
    Fails symbols previous (.callee callee arity :: xs ++ [semicolon]) := by
  intro ls hls index p rest
  obtain ⟨e, he⟩ := convertFirst_of_unpaired hinner hunpaired hls index rest
  cases hls with
  | @cons _ l _ ls hl hls =>
  obtain ⟨hpadding, hstart⟩ := startAt_here hprevious hl
  exact ⟨e, by rw [List.cons_append, Postfix.walk_here hpadding hstart, ← List.cons_append, he]⟩

/-- The bracket that a sign of the statement does not get leaves a parenthesis open. -/
theorem excess_of_unserved (h : ¬ s.Served scope) :
    excess .openParen .closeParen (s.written scope) ≠ 0 := by
  have hlt := Signs.excess_lt h
  rw [s.expression.excess_words scope] at hlt
  simp only [Bool.toNat_false] at hlt
  unfold Statement.written
  omega

theorem kind_written : ∀ w ∈ s.written scope, w.kind ≠ .semicolon :=
  kind_rewrite (kind_words s.expression)

theorem fails_of_unserved (hprevious : Postfix.endsStatement previous) (h : ¬ s.Served scope) :
    Fails symbols previous (s.lead scope ++ (s.written scope ++ [semicolon])) := by
  have hexcess := excess_of_unserved h
  cases s with
  | assign name e =>
    have hassign : Fails symbols (some .identifier)
        (.mark .assign :: ((Statement.assign name e).written scope ++ [semicolon])) :=
      .behind (Or.inl rfl) kind_written hexcess
    exact (Converts.word stays_var).fails hassign
  | ret e => exact .behind (Or.inr (Or.inl rfl)) kind_written hexcess
  | echo e => exact .behind (Or.inr (Or.inr rfl)) kind_written hexcess
  | callNone callee => exact absurd rfl hexcess
  | call callee arguments =>
    obtain ⟨more, hwritten⟩ := Statement.written_of_callee
      (s := .call callee arguments)  rfl
    have hkind := @kind_written scope (.call callee arguments)
    rw [hwritten] at hkind hexcess ⊢
    exact .here hprevious hkind hexcess

/-- What is written for a statement, however the brackets of its signs stand. -/
theorem rewrite_statement : ∃ t : Signs, Signs.quiet.rewrite (s.words scope ++ tail) =
    s.lead scope ++ (s.written scope ++ [semicolon]) ++ t.rewrite tail := by
  have hsemicolon (t : Signs) : t.rewrite [semicolon] = [semicolon] := by
    simp [Signs.rewrite, Signs.written, semicolon, Expr.minus, Word.isOperand]
  have hlead : Signs.quiet.Reads _ _ ⟨false, s.allowsSign⟩ := @reads_lead scope s
  refine ⟨Signs.after ⟨false, s.allowsSign⟩ (s.expression.words scope ++ [semicolon]), ?_⟩
  rw [Statement.words, List.append_assoc, List.append_assoc, Signs.rewrite_append, hlead.1,
    hlead.2, ← List.append_assoc (s.expression.words scope), Signs.rewrite_append,
    Signs.rewrite_append, hsemicolon, Statement.written]
  simp only [List.append_assoc]

/-- A body with a sign that never gets its bracket. -/
theorem fails_body {body : List Statement} (hprevious : Postfix.endsStatement previous)
    (h : ¬ ∀ s ∈ body, s.Served scope)
    (hshort : ∀ s ∈ body, (s.written scope).length + 1 ≤ Limits.maxStatementLength) :
    Fails symbols previous (Signs.quiet.rewrite (body.flatMap (·.words scope) ++ tail)) := by
  obtain ⟨trees, htrees⟩ := exists_structures
  induction body generalizing previous with
  | nil => exact absurd (List.forall_mem_nil _) h
  | cons s body ih =>
    rw [List.flatMap_cons, List.append_assoc]
    by_cases hs : s.Served scope
    · have hrest : ¬ ∀ s ∈ body, s.Served scope :=
        fun hbody => h (List.forall_mem_cons.mpr ⟨hs, hbody⟩)
      have hfails := @ih (some .semicolon) rfl hrest
        fun x hx => hshort x (List.mem_cons_of_mem s hx)
      have hreads := (htrees scope s hs).reads_statement
      rw [Signs.rewrite_append, hreads.1, hreads.2]
      exact ((htrees scope s hs).converts hprevious (hshort s List.mem_cons_self)).fails hfails
    · obtain ⟨t, ht⟩ := @rewrite_statement (body.flatMap (·.words scope) ++ tail) scope s
      rw [ht]
      exact (fails_of_unserved hprevious hs).append

/-- A program with a sign that never gets its bracket is not put into postfix order. -/
theorem fails_written {fs : List Function} (h : ¬ Served fs) (hshort : Short fs) :
    Fails symbols previous (written fs) := by
  obtain ⟨trees, htrees⟩ := exists_structures
  induction fs generalizing previous with
  | nil => exact absurd (List.forall_mem_nil _) h
  | cons f fs ih =>
    rw [written, words, List.flatMap_cons]
    by_cases hf : ∀ s ∈ f.body, s.Served f.name
    · have hrest : ¬ Served fs := fun hserved => h (List.forall_mem_cons.mpr ⟨hf, hserved⟩)
      have hfails := @ih (some .closeBrace) hrest fun g hg => hshort g (List.mem_cons_of_mem f hg)
      have hstructured : ∀ s ∈ f.body, Structured trees f.name s :=
        fun s hs => htrees f.name s (hf s hs)
      rw [Signs.rewrite_append, (f.reads hstructured).1, (f.reads hstructured).2]
      exact (f.converts hstructured (hshort f List.mem_cons_self)).fails hfails
    · obtain ⟨q, hq, hheader⟩ := @Function.converts_header limits symbols previous f
      rw [Function.words, List.append_assoc, List.append_assoc, Signs.rewrite_append,
        f.reads_header.1, f.reads_header.2]
      exact hheader.fails (fails_body hq hf (hshort f List.mem_cons_self))

end Ttm.Core
