import Ttm.Proofs.Program.Effect

/-! Brackets of a token list and the scopes of its scan: how deep they are, and where they fail. -/
namespace Ttm

open Source (Token)

namespace Program

theorem countP_concat {α : Type} (p : α → Bool) (l : List α) (a : α) :
    (l ++ [a]).countP p = l.countP p + (p a).toNat := by
  rw [List.countP_append, List.countP_singleton]
  cases p a <;> rfl

/-- How many brackets of both forms a token list opens. -/
def opened (tokens : List Token) : Nat := tokens.countP Token.opens

def closed (tokens : List Token) : Nat := tokens.countP Token.closes

/-- No beginning of the list closes more brackets than it opens, and the deepest one leaves as many
open as `deepest` says. -/
structure Nested (tokens : List Token) (deepest : Nat) : Prop where
  covered : ∀ before, before <+: tokens → closed before ≤ opened before
  bounded : ∀ before, before <+: tokens → opened before ≤ closed before + deepest
  attained : ∃ before, before <+: tokens ∧ opened before = closed before + deepest

/-- The scopes of a scan are as deep as the brackets of the tokens done. -/
structure Follows (maxDepth : Nat) (done : List Token) (s : Scan.State) : Prop where
  nested : Nested done s.scopes.deepest
  depth : opened done = closed done + s.scopes.depth
  limit : s.scopes.maxDepth = maxDepth
  within : s.scopes.deepest ≤ maxDepth

namespace Scan

/-- What an accepted token does to the depth of scopes. -/
inductive Moves (token : Token) (s t : Scopes) : Prop
  | opening (hk : token.opens) (hn : token.closes = false) (room : s.depth < s.maxDepth)
    (hd : t.depth = s.depth + 1) (hmax : t.deepest = max s.deepest (s.depth + 1))
  | closing (hk : token.closes) (hn : token.opens = false) (hd : s.depth = t.depth + 1)
    (hmax : t.deepest = s.deepest)
  | still (ho : token.opens = false) (hc : token.closes = false) (hd : t.depth = s.depth)
    (hmax : t.deepest = s.deepest)

variable {limits : Limits} {s t : State} {token : Token}

/-- Only brackets move the scopes, one up or down. -/
theorem Effect.moves (h : Effect token s t) :
    Moves token s.scopes t.scopes ∧ t.scopes.maxDepth = s.scopes.maxDepth := by
  cases h with
  | opening ho hc hs =>
    exact ⟨.opening ho hc hs.room hs.depth (hs.deepest.trans (by rw [hs.depth])), hs.maxDepth⟩
  | closing hc ho hs => exact ⟨.closing hc ho hs.depth hs.deepest, hs.maxDepth⟩
  | declaring hk hd ht hs =>
    obtain ⟨ho, hc⟩ : token.opens = false ∧ token.closes = false := by
      rcases hk with hk | ⟨hk, -⟩ <;> exact not_bracket hk (by decide)
    rw [hs]
    unfold State.prepare
    split <;> exact ⟨.still ho hc rfl rfl, rfl⟩
  | still ho hc hs =>
    rw [hs]
    exact ⟨.still ho hc rfl rfl, rfl⟩

end Scan

variable {limits : Limits} {settings : ScanSettings} {done : List Token} {token : Token}
  {called : Bool} {maxDepth deepest : Nat} {s t : Scan.State}

theorem opened_concat : opened (done ++ [token]) = opened done + token.opens.toNat :=
  countP_concat _ _ _

theorem closed_concat : closed (done ++ [token]) = closed done + token.closes.toNat :=
  countP_concat _ _ _

/-- One token more: its depth is the only new one. -/
theorem Nested.concat {depth next : Nat} (h : Nested done deepest)
    (hd : opened (done ++ [token]) = closed (done ++ [token]) + depth)
    (hnext : next = max deepest depth) : Nested (done ++ [token]) next := by
  constructor
  · intro before hbefore
    rcases List.prefix_concat_iff.mp hbefore with rfl | hbefore
    · omega
    · exact h.covered before hbefore
  · intro before hbefore
    rcases List.prefix_concat_iff.mp hbefore with rfl | hbefore
    · omega
    · have := h.bounded before hbefore
      omega
  · rcases Nat.le_total depth deepest with hle | hle
    · obtain ⟨before, hbefore, heq⟩ := h.attained
      exact ⟨before, hbefore.trans (List.prefix_append _ _), by omega⟩
    · exact ⟨_, List.prefix_rfl, by omega⟩

theorem follows_begin {symbols : Symbol.Table} {lexemes : Lexeme.Table} :
    Follows maxDepth [] (.begin settings maxDepth symbols lexemes) := by
  refine ⟨⟨?_, ?_, [], List.prefix_rfl, rfl⟩, rfl, rfl, Nat.zero_le _⟩ <;>
    intro before hbefore <;> rw [List.prefix_nil.mp hbefore] <;> exact Nat.le_refl _

theorem Follows.step (h : Follows maxDepth done s) (hs : Scan.Step token called s t) :
    Follows maxDepth (done ++ [token]) t := by
  obtain ⟨hmoves, hlimit⟩ := hs.effect.moves
  have hopened := @opened_concat done token
  have hclosed := @closed_concat done token
  have hdepth := h.depth
  have hattained := h.nested.bounded done List.prefix_rfl
  have hwithin := h.within
  have hmax := h.limit
  have hnext : opened (done ++ [token]) = closed (done ++ [token]) + t.scopes.depth ∧
      t.scopes.deepest = max s.scopes.deepest t.scopes.depth ∧ t.scopes.deepest ≤ maxDepth := by
    cases hmoves with
    | opening hk hn room hd hdeepest =>
      rw [hk, Bool.toNat_true] at hopened
      rw [hn, Bool.toNat_false] at hclosed
      omega
    | closing hk hn hd hdeepest =>
      rw [hn, Bool.toNat_false] at hopened
      rw [hk, Bool.toNat_true] at hclosed
      omega
    | still ho hc hd hdeepest =>
      rw [ho, Bool.toNat_false] at hopened
      rw [hc, Bool.toNat_false] at hclosed
      omega
  exact ⟨h.nested.concat hnext.1 hnext.2.1, hnext.1, hlimit.trans h.limit, hnext.2.2⟩

end Program
end Ttm
