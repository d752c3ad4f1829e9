import Ttm.Proofs.Core.Output
import Ttm.Proofs.Postfix.Nesting

/-! Where the bracket of a sign stands, and when there is one. -/
namespace Ttm.Core

open Lexeme (Kind)
open Postfix (Level Tree Role Want follow)

namespace Signs

/-- No sign comes while another one waits for its operand. -/
def Single : Signs → List Word → Prop
  | _, [] => True
  | s, w :: ws => ¬ (s.waiting ∧ s.allowed ∧ w = Expr.minus) ∧ Single (s.next w) ws

/-- Every sign gets its bracket: behind it comes a literal or a variable, before the next sign and
before the end. -/
def Served (s : Signs) (ws : List Word) : Prop := s.Single ws ∧ (s.after ws).waiting = false

instance decidableSingle : (s : Signs) → (ws : List Word) → Decidable (s.Single ws)
  | _, [] => inferInstanceAs (Decidable True)
  | s, w :: ws =>
    have := decidableSingle (s.next w) ws
    inferInstanceAs (Decidable (¬ (s.waiting ∧ s.allowed ∧ w = Expr.minus) ∧ _))

instance (s : Signs) (ws : List Word) : Decidable (s.Served ws) :=
  inferInstanceAs (Decidable (_ ∧ _))

variable {s t : Signs} {w : Word} {xs ys : List Word}

theorem single_append : s.Single (xs ++ ys) ↔ s.Single xs ∧ (s.after xs).Single ys := by
  induction xs generalizing s with
  | nil => exact (iff_of_eq (true_and _)).symm
  | cons w xs ih =>
    rw [List.cons_append, Single, Single, ih, and_assoc, after, after, List.foldl_cons]

/-- Reading goes from one state of the signs to another, and from one depth of parentheses to
another. -/
def Passes (s : Signs) (start : Nat × Want) (ws : List Word) (t : Signs) (stop : Nat × Want) :
    Prop :=
  s.after ws = t ∧ follow Word.role start (s.rewrite ws) = some stop

variable {a b c : Nat × Want} {u : Signs}

theorem Passes.append (hx : s.Passes a xs t b) (hy : t.Passes b ys u c) :
    s.Passes a (xs ++ ys) u c := by
  obtain ⟨rfl, hx⟩ := hx
  obtain ⟨rfl, hy⟩ := hy
  exact ⟨after_append, by rw [rewrite_append, Postfix.follow_append, hx]; exact hy⟩

theorem Passes.cons (hx : s.Passes a [w] t b) (hy : t.Passes b ys u c) :
    s.Passes a (w :: ys) u c := hx.append hy

/-- A mark that is no sign. -/
theorem passes_mark {k : Kind} {r : Role} (hsign : s.allowed = false ∨ (k == .minus) = false)
    (hrole : (Word.mark k).role = some r) (hnext : a.2.next a.1 r = some b) :
    s.Passes a [.mark k] ⟨s.waiting, (Word.mark k).expectsOperand⟩ b := by
  have hminus : ¬ (s.allowed ∧ Word.mark k = Expr.minus) := by
    rintro ⟨hallowed, hk⟩
    rcases hsign with hsign | hsign
    · simp [hallowed] at hsign
    · cases hk
      cases hsign
  constructor
  · simp [after, next, hminus, Word.isOperand]
  · obtain ⟨d, want⟩ := a
    simp [rewrite, written, hminus, Word.isOperand, follow, hrole, hnext]

end Signs

namespace Expr

variable {level : Level} {first : Bool}

/-- Reading an operand; a sign that waits gets its bracket. -/
theorem passes_operand {w : Word} (hw : w.isOperand) {waiting allowed : Bool} {d : Nat}
    {want : Want} (hwant : want = .operand ∨ want = .argument) (hd : waiting.toNat ≤ d) :
    ∃ d', Signs.Passes ⟨waiting, allowed⟩ (d, want) [w] Signs.quiet (d', .operator) ∧
      d' + waiting.toNat = d := by
  have hrole : w.role = some .operand := by
    cases w <;> first | rfl | cases hw
  have hminus : w ≠ minus := by
    rintro rfl
    cases hw
  have hexpects : w.expectsOperand = false := by
    cases w <;> first | rfl | cases hw
  have hnext (d : Nat) : want.next d .operand = some (d, .operator) := by
    rcases hwant with rfl | rfl <;> cases d <;> rfl
  have hclosing : Word.role closing = some .closing := rfl
  cases waiting with
  | false =>
    refine ⟨d, ⟨?_, ?_⟩, rfl⟩
    · simp [Signs.after, Signs.next, hminus, hexpects, Signs.quiet]
    · simp [Signs.rewrite, Signs.written, hminus, follow, hrole, hnext]
  | true =>
    obtain ⟨d', rfl⟩ : ∃ d', d = d' + 1 := Nat.exists_eq_succ_of_ne_zero (by
      rw [Bool.toNat_true] at hd
      omega)
    have hclose : Want.next (d' + 1) .operator .closing = some (d', .operator) := rfl
    refine ⟨d', ⟨?_, ?_⟩, rfl⟩
    · simp [Signs.after, Signs.next, hminus, hexpects, hw, Signs.quiet]
    · simp [Signs.rewrite, Signs.written, hminus, hw, follow, hrole, hnext, hclosing, hclose]

theorem passes_callee (callee : String) (arity : Nat) {waiting allowed : Bool} {d : Nat}
    {want : Want} (hwant : want = .operand ∨ want = .argument) :
    Signs.Passes ⟨waiting, allowed⟩ (d, want) [.callee callee arity] ⟨waiting, false⟩
      (d, .list) := by
  have hrole : (Word.callee callee arity).role = some .callee := rfl
  have hnext : want.next d .callee = some (d, .list) := by
    rcases hwant with rfl | rfl <;> cases d <;> rfl
  constructor
  · simp [Signs.after, Signs.next, minus, Word.isOperand, Word.expectsOperand]
  · simp [Signs.rewrite, Signs.written, minus, Word.isOperand, follow, hrole, hnext]

/-- A sign opens a parenthesis, and waits. -/
theorem passes_sign {d : Nat} {want : Want} (hwant : want = .operand ∨ want = .argument) :
    Signs.Passes ⟨false, true⟩ (d, want) [minus] ⟨true, false⟩ (d + 1, .operand) := by
  refine ⟨rfl, ?_⟩
  rcases hwant with rfl | rfl <;> cases d <;> rfl

theorem passes_opening {waiting allowed : Bool} {d : Nat} {want : Want}
    (hwant : want = .operand ∨ want = .argument) :
    Signs.Passes ⟨waiting, allowed⟩ (d, want) [opening] ⟨waiting, true⟩ (d + 1, .operand) := by
  refine Signs.passes_mark (Or.inr rfl) rfl ?_
  rcases hwant with rfl | rfl <;> cases d <;> rfl

theorem passes_closing {waiting allowed : Bool} {d : Nat} {want : Want}
    (hwant : want = .operator ∨ want = .argument) :
    Signs.Passes ⟨waiting, allowed⟩ (d + 1, want) [closing] ⟨waiting, false⟩ (d, .operator) := by
  refine Signs.passes_mark (Or.inr rfl) rfl ?_
  rcases hwant with rfl | rfl <;> rfl

theorem passes_operator {k : Kind} {r : Role} {waiting : Bool} {d : Nat}
    (hk : (Word.mark k).role = some r) (hr : r = .multiplicative ∨ r = .additive ∨ r = .comma) :
    Signs.Passes ⟨waiting, false⟩ (d, .operator) [.mark k] ⟨waiting, false⟩ (d, .operand) := by
  have hexpects : (Word.mark k).expectsOperand = false := by
    cases k <;> first | rfl | skip
    all_goals rcases hr with rfl | rfl | rfl <;> cases hk
  have hpasses := @Signs.passes_mark ⟨waiting, false⟩ (d, .operator) (d, .operand) k r
    (Or.inl rfl) hk (by rcases hr with rfl | rfl | rfl <;> cases d <;> rfl)
  rwa [hexpects] at hpasses

/-- A text with single signs can be followed as an expression. A sign that waits before it and has
its bracket in it leaves one parenthesis less open, one that still waits behind it one more. -/
def Follows (first : Bool) (ws : List Word) : Prop :=
  ∀ (waiting : Bool) (d : Nat) (want : Want), want = .operand ∨ want = .argument →
    waiting.toNat ≤ d → Signs.Single ⟨waiting, first⟩ ws →
    ∃ waiting' d', Signs.Passes ⟨waiting, first⟩ (d, want) ws ⟨waiting', false⟩ (d', .operator) ∧
      d' + waiting.toNat = d + waiting'.toNat

theorem follows_operand {w : Word} (hw : w.isOperand) : Follows first [w] := by
  intro waiting d want hwant hd _
  obtain ⟨d', hpasses, hdepth⟩ := @passes_operand w hw waiting first d want hwant hd
  exact ⟨false, d', hpasses, hdepth⟩

theorem follows_binary {xs ys : List Word} {k : Kind} {r : Role} (hk : (Word.mark k).role = some r)
    (hr : r = .multiplicative ∨ r = .additive ∨ r = .comma) (hx : Follows first xs)
    (hy : Follows false ys) : Follows first (xs ++ .mark k :: ys) := by
  intro waiting d want hwant hd h
  obtain ⟨hsingle, hrest⟩ := Signs.single_append.mp h
  obtain ⟨w, m, hleft, hm⟩ := hx waiting d want hwant hd hsingle
  have hoperator := @passes_operator k r w m hk hr
  rw [hleft.1] at hrest
  have hright : Signs.Single ⟨w, false⟩ ys := by
    have hafter := (@Signs.single_append _ [.mark k] ys).mp hrest
    rw [hoperator.1] at hafter
    exact hafter.2
  obtain ⟨w', n, hright, hn⟩ := hy w m .operand (Or.inl rfl) (by omega) hright
  exact ⟨w', n, hleft.append (hoperator.cons hright), by omega⟩

/-- What stands in parentheses, behind the opening one. -/
theorem passes_inner {xs : List Word} (hx : Follows true xs) {waiting : Bool} {d : Nat}
    {want : Want} (hwant : want = .operand ∨ want = .argument) (hd : waiting.toNat ≤ d)
    (h : Signs.Single ⟨waiting, true⟩ (xs ++ [closing])) :
    ∃ waiting' d', Signs.Passes ⟨waiting, true⟩ (d + 1, want) (xs ++ [closing]) ⟨waiting', false⟩
      (d', .operator) ∧ d' + waiting.toNat = d + waiting'.toNat := by
  obtain ⟨w, m, hinner, hm⟩ := hx waiting (d + 1) want hwant (by omega)
    (Signs.single_append.mp h).1
  obtain ⟨n, rfl⟩ : ∃ n, m = n + 1 := Nat.exists_eq_succ_of_ne_zero (by omega)
  exact ⟨w, n, hinner.append (passes_closing (Or.inl rfl)), by omega⟩

theorem follows_group {xs : List Word} (hx : Follows true xs) :
    Follows first (opening :: (xs ++ [closing])) := by
  intro waiting d want hwant hd h
  have hopening := @passes_opening waiting first d want hwant
  have hrest := ((@Signs.single_append _ [opening] _).mp h).2
  rw [hopening.1] at hrest
  obtain ⟨w, m, hinner, hm⟩ := passes_inner hx (Or.inl rfl) hd hrest
  exact ⟨w, m, hopening.cons hinner, hm⟩

theorem passes_list {waiting : Bool} {d : Nat} :
    Signs.Passes ⟨waiting, false⟩ (d, .list) [opening] ⟨waiting, true⟩ (d + 1, .argument) :=
  Signs.passes_mark (Or.inr rfl) rfl (by cases d <;> rfl)

theorem follows_callNone {callee : String} {arity : Nat} :
    Follows first [.callee callee arity, opening, closing] := by
  intro waiting d want hwant _ _
  refine ⟨waiting, d, ?_, rfl⟩
  exact (passes_callee callee arity hwant).cons
    (passes_list.cons (passes_closing (Or.inr rfl)))

theorem follows_call {callee : String} {arity : Nat} {xs : List Word} (hx : Follows true xs) :
    Follows first (.callee callee arity :: opening :: (xs ++ [closing])) := by
  intro waiting d want hwant hd h
  have hcallee := @passes_callee callee arity waiting first d want hwant
  have hrest := ((@Signs.single_append _ [.callee callee arity] _).mp h).2
  rw [hcallee.1] at hrest
  have hopening := @passes_list waiting d
  have hrest := ((@Signs.single_append _ [opening] _).mp hrest).2
  rw [hopening.1] at hrest
  obtain ⟨w, m, hinner, hm⟩ := passes_inner hx (Or.inr rfl) hd hrest
  exact ⟨w, m, hcallee.cons (hopening.cons hinner), hm⟩

theorem follows_negate {xs : List Word} (hx : Follows false xs) : Follows true (minus :: xs) := by
  intro waiting d want hwant hd h
  obtain rfl : waiting = false := by
    have hsingle : ¬ (waiting ∧ true ∧ minus = minus) := h.1
    simpa using hsingle
  have hsign := passes_sign (d := d) hwant
  have hrest := ((@Signs.single_append _ [minus] _).mp h).2
  rw [hsign.1] at hrest
  obtain ⟨w, m, hoperand, hm⟩ := hx true (d + 1) .operand (Or.inl rfl) (by simp) hrest
  refine ⟨w, m, hsign.cons hoperand, ?_⟩
  simp only [Bool.toNat_true, Bool.toNat_false] at hm ⊢
  omega

theorem follows_words (scope : String) (e : Expr level first) : Follows first (e.words scope) := by
  induction e with
  | integer | text | var => exact follows_operand rfl
  | group e ih => exact follows_group ih
  | callNone callee => exact follows_callNone
  | call callee arguments ih => exact follows_call ih
  | negate e ih => exact follows_negate ih
  | ofFactor e ih | ofProduct e ih | ofSum e ih => exact ih
  | multiply left operator right ihl ihr =>
    exact follows_binary (role_multiplicative operator) (Or.inl rfl) ihl ihr
  | add left operator right ihl ihr =>
    exact follows_binary (role_additive operator) (Or.inr (Or.inl rfl)) ihl ihr
  | append left right ihl ihr => exact follows_binary rfl (Or.inr (Or.inr rfl)) ihl ihr

/-- An expression whose signs all get their brackets has a structure when these are written. -/
theorem exists_tree_of_served (scope : String) (e : Expr level first)
    (h : Signs.Served ⟨false, first⟩ (e.words scope)) :
    ∃ t : Tree Word .list, t.Proper Word.role ∧
      Signs.Reads ⟨false, first⟩ (e.words scope) t.tokens Signs.quiet := by
  obtain ⟨waiting, d, hpasses, hd⟩ :=
    follows_words scope e false 0 .operand (Or.inl rfl) (Nat.zero_le 0) h.1
  obtain rfl : waiting = false := by
    have hwaiting := h.2
    rwa [hpasses.1] at hwaiting
  obtain rfl : d = 0 := by simpa using hd
  obtain ⟨t, ht, htokens⟩ := Postfix.exists_tree hpasses.2
  exact ⟨t, ht, htokens.symm, hpasses.1⟩

theorem excess_words (scope : String) (e : Expr level first) :
    excess .openParen .closeParen (e.words scope) = 0 := by
  have hbinary (xs ys : List Word) (w : Word) (hx : excess .openParen .closeParen xs = 0)
      (hw : excess .openParen .closeParen [w] = 0) (hy : excess .openParen .closeParen ys = 0) :
      excess .openParen .closeParen (xs ++ w :: ys) = 0 := by
    rw [excess_append, excess_cons, hx, hw, hy]
    rfl
  have hgroup (xs : List Word) (hx : excess .openParen .closeParen xs = 0) :
      excess .openParen .closeParen (opening :: (xs ++ [closing])) = 0 := by
    rw [excess_cons, excess_append, hx]
    rfl
  have harithmetic {k : Kind} (hk : k.isArithmetic) :
      excess .openParen .closeParen [.mark k] = 0 := by
    cases k <;> first | rfl | cases hk
  induction e with
  | integer | text | var | callNone => rfl
  | group e ih => exact hgroup _ ih
  | call callee arguments ih =>
    rw [words, List.cons_append, excess_cons]
    exact (Int.zero_add _).trans (hgroup _ ih)
  | negate e ih => exact hbinary [] _ minus rfl rfl ih
  | ofFactor e ih | ofProduct e ih | ofSum e ih => exact ih
  | multiply left operator right ihl ihr =>
    exact hbinary _ _ _ ihl (harithmetic (Postfix.priority_of_multiplicative operator.2).1) ihr
  | add left operator right ihl ihr =>
    exact hbinary _ _ _ ihl (harithmetic (Postfix.priority_of_additive operator.2).1) ihr
  | append left right ihl ihr => exact hbinary _ _ comma ihl rfl ihr

end Expr

namespace Signs

variable {s : Signs} {w : Word} {ws : List Word}

theorem excess_written : excess .openParen .closeParen (s.written w) + s.waiting.toNat =
    excess .openParen .closeParen [w] + (s.next w).waiting.toNat +
      (s.waiting && s.allowed && w == Expr.minus).toNat := by
  by_cases hsign : s.allowed ∧ w = Expr.minus
  · obtain ⟨hallowed, rfl⟩ := hsign
    have hwritten : s.written Expr.minus = [Expr.opening, Expr.zero, Expr.minus] :=
      if_pos ⟨hallowed, rfl⟩
    have hnext : s.next Expr.minus = ⟨true, false⟩ := if_pos ⟨hallowed, rfl⟩
    rw [hwritten, hnext, hallowed]
    cases s.waiting <;> rfl
  · have hpile : (s.waiting && s.allowed && w == Expr.minus) = false := by
      rw [Bool.and_assoc]
      exact Bool.and_eq_false_iff.mpr (Or.inr (by simpa using hsign))
    by_cases hoperand : s.waiting ∧ w.isOperand
    · have hwritten : s.written w = [w] ++ [Expr.closing] := by
        rw [written, if_neg hsign, if_pos hoperand]
        rfl
      have hclosing : excess .openParen .closeParen [Expr.closing] = -1 := rfl
      rw [hwritten, excess_append, hclosing, hpile]
      simp only [next, hsign, hoperand, if_false, Bool.not_true, Bool.and_false, Bool.toNat_true,
        Bool.toNat_false]
      omega
    · have hwritten : s.written w = [w] := by rw [written, if_neg hsign, if_neg hoperand]
      have hnext : (s.next w).waiting = s.waiting := by
        rw [next, if_neg hsign]
        cases hw : s.waiting
        · rfl
        · simpa [hw] using hoperand
      rw [hwritten, hnext, hpile]
      simp

theorem excess_le (s : Signs) (ws : List Word) : excess .openParen .closeParen ws ≤
    excess .openParen .closeParen (s.rewrite ws) + s.waiting.toNat := by
  induction ws generalizing s with
  | nil => simp [rewrite, excess]
  | cons w ws ih =>
    have hw := @excess_written s w
    have hws := ih (s.next w)
    rw [excess_cons, rewrite, excess_append]
    omega

/-- A sign without its bracket leaves a parenthesis open. -/
theorem excess_lt (h : ¬ s.Served ws) : excess .openParen .closeParen ws <
    excess .openParen .closeParen (s.rewrite ws) + s.waiting.toNat := by
  induction ws generalizing s with
  | nil =>
    have hwaiting : s.waiting = true := by
      cases hs : s.waiting with
      | false => exact absurd ⟨trivial, hs⟩ h
      | true => rfl
    simp [rewrite, excess, hwaiting]
  | cons w ws ih =>
    have hw := @excess_written s w
    rw [excess_cons, rewrite, excess_append]
    by_cases hpile : s.waiting ∧ s.allowed ∧ w = Expr.minus
    · have hone : (s.waiting && s.allowed && w == Expr.minus).toNat = 1 := by simp [hpile]
      have hws := excess_le (s.next w) ws
      omega
    · have hrest : ¬ (s.next w).Served ws := fun hserved => h ⟨⟨hpile, hserved.1⟩, hserved.2⟩
      have hws := ih hrest
      omega

end Signs

end Ttm.Core
