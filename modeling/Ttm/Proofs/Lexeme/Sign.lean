import Mathlib.Data.Nat.Find
import Mathlib.Tactic.ByContra
import Ttm.Lexeme.Table
import Ttm.Symbol.Table

/-! Signs in a row of lexemes, and the operands behind which they end. -/
namespace Ttm

open Lexeme (Kind)

/-- A literal, or a name that is no function: a sign ends behind it. -/
def Lexeme.isOperand (symbols : Symbol.Table) (l : Lexeme) : Bool :=
  l.kind == .literal || (l.kind == .identifier && !symbols.isFunction l.symbol)

/-- A minus behind such a lexeme is a sign. -/
def Lexeme.Kind.takesSign (k : Kind) : Prop := k ∈ [.assign, .openParen, .retWord]

instance (k : Kind) : Decidable k.takesSign := inferInstanceAs (Decidable (_ ∈ _))

namespace Lexeme

variable {own : List Lexeme} {l : Lexeme} {symbols : Symbol.Table} {q r s : Nat}

/-- A minus right behind the last of these lexemes is a sign. -/
def SignNext (own : List Lexeme) : Prop :=
  ∃ r previous, own.length = r + 1 ∧ own[r]? = some previous ∧ previous.kind.takesSign

/-- The minus at `q` is a sign: it stands right behind `=`, `(` or `ret`. -/
def SignAt (own : List Lexeme) (q : Nat) : Prop :=
  ∃ r previous l, q = r + 1 ∧ own[r]? = some previous ∧ previous.kind.takesSign ∧
    own[q]? = some l ∧ l.kind = .minus

def OperandAt (symbols : Symbol.Table) (own : List Lexeme) (q : Nat) : Prop :=
  ∃ l, own[q]? = some l ∧ l.isOperand symbols

/-- The sign at `s` ends at `q`, the first operand behind it. -/
structure SignEnds (symbols : Symbol.Table) (own : List Lexeme) (s q : Nat) : Prop where
  sign : SignAt own s
  behind : s < q
  operand : OperandAt symbols own q
  first : ∀ r, s < r → r < q → ¬ OperandAt symbols own r

/-- The sign at `s` waits for its operand. -/
def SignWaits (symbols : Symbol.Table) (own : List Lexeme) (s : Nat) : Prop :=
  SignAt own s ∧ ∀ r, s < r → ¬ OperandAt symbols own r

/-- There is an operand between any two signs. -/
def SignsApart (symbols : Symbol.Table) (own : List Lexeme) : Prop :=
  ∀ s r, SignAt own s → SignAt own r → s < r → ∃ q, s < q ∧ q < r ∧ OperandAt symbols own q

theorem lt_of_getElem? {α : Type} {own : List α} {l : α} (h : own[q]? = some l) :
    q < own.length :=
  (List.getElem?_eq_some_iff.mp h).1

theorem getElem?_concat {α : Type} {own : List α} {l m : α} :
    (own ++ [l])[q]? = some m ↔ own[q]? = some m ∨ q = own.length ∧ l = m := by
  rw [List.getElem?_append]
  split
  · next hq =>
    constructor
    · exact Or.inl
    · rintro (h | ⟨rfl, -⟩)
      · exact h
      · exact absurd hq (Nat.lt_irrefl _)
  · next hq =>
    rw [List.getElem?_singleton]
    constructor
    · intro h
      split at h
      · cases h
        exact Or.inr ⟨by omega, rfl⟩
      · cases h
    · rintro (h | ⟨rfl, rfl⟩)
      · exact absurd (lt_of_getElem? h) hq
      · simp

theorem SignAt.lt (h : SignAt own q) : q < own.length := by
  obtain ⟨_, _, _, -, -, -, hl, -⟩ := h
  exact lt_of_getElem? hl

theorem OperandAt.lt (h : OperandAt symbols own q) : q < own.length := by
  obtain ⟨_, hl, -⟩ := h
  exact lt_of_getElem? hl

theorem OperandAt.not_sign (h : OperandAt symbols own q) : ¬ SignAt own q := by
  rintro ⟨_, _, l, -, -, -, hl, hk⟩
  obtain ⟨l', hl', hoperand⟩ := h
  obtain rfl : l = l' := Option.some.inj (hl.symm.trans hl')
  simp [isOperand, hk] at hoperand

theorem signNext_concat : SignNext (own ++ [l]) ↔ l.kind.takesSign := by
  rw [SignNext, List.length_append, List.length_singleton]
  constructor
  · rintro ⟨r, previous, hr, hprevious, htakes⟩
    rcases getElem?_concat.mp hprevious with hprevious | ⟨-, rfl⟩
    · have := lt_of_getElem? hprevious
      omega
    · exact htakes
  · intro htakes
    exact ⟨own.length, l, rfl, getElem?_concat.mpr (Or.inr ⟨rfl, rfl⟩), htakes⟩

theorem signAt_concat : SignAt (own ++ [l]) q ↔
    SignAt own q ∨ q = own.length ∧ l.kind = .minus ∧ SignNext own := by
  constructor
  · rintro ⟨r, previous, m, rfl, hr, htakes, hm, hk⟩
    rcases getElem?_concat.mp hr with hr | ⟨hr, -⟩
    · rcases getElem?_concat.mp hm with hm | ⟨hq, rfl⟩
      · exact Or.inl ⟨r, previous, m, rfl, hr, htakes, hm, hk⟩
      · exact Or.inr ⟨hq, hk, r, previous, hq.symm, hr, htakes⟩
    · rcases getElem?_concat.mp hm with hm | ⟨hq, -⟩
      · have := lt_of_getElem? hm
        omega
      · omega
  · rintro (⟨r, previous, m, rfl, hr, htakes, hm, hk⟩ | ⟨rfl, hk, r, previous, hq, hr, htakes⟩)
    · exact ⟨r, previous, m, rfl, getElem?_concat.mpr (Or.inl hr), htakes,
        getElem?_concat.mpr (Or.inl hm), hk⟩
    · exact ⟨r, previous, l, hq, getElem?_concat.mpr (Or.inl hr), htakes,
        getElem?_concat.mpr (Or.inr ⟨rfl, rfl⟩), hk⟩

theorem operandAt_concat : OperandAt symbols (own ++ [l]) q ↔
    OperandAt symbols own q ∨ q = own.length ∧ l.isOperand symbols := by
  constructor
  · rintro ⟨m, hm, hoperand⟩
    rcases getElem?_concat.mp hm with hm | ⟨hq, rfl⟩
    · exact Or.inl ⟨m, hm, hoperand⟩
    · exact Or.inr ⟨hq, hoperand⟩
  · rintro (⟨m, hm, hoperand⟩ | ⟨rfl, hoperand⟩)
    · exact ⟨m, getElem?_concat.mpr (Or.inl hm), hoperand⟩
    · exact ⟨l, getElem?_concat.mpr (Or.inr ⟨rfl, rfl⟩), hoperand⟩

theorem signAt_concat_of_lt (hq : q < own.length) : SignAt (own ++ [l]) q ↔ SignAt own q := by
  rw [signAt_concat]
  constructor
  · rintro (h | ⟨rfl, -⟩)
    · exact h
    · exact absurd hq (Nat.lt_irrefl _)
  · exact Or.inl

theorem operandAt_concat_of_lt (hq : q < own.length) :
    OperandAt symbols (own ++ [l]) q ↔ OperandAt symbols own q := by
  rw [operandAt_concat]
  constructor
  · rintro (h | ⟨rfl, -⟩)
    · exact h
    · exact absurd hq (Nat.lt_irrefl _)
  · exact Or.inl

theorem signEnds_concat_of_lt (hq : q < own.length) :
    SignEnds symbols (own ++ [l]) s q ↔ SignEnds symbols own s q := by
  constructor
  · rintro ⟨hs, hsq, hoperand, hfirst⟩
    refine ⟨(signAt_concat_of_lt (by omega)).mp hs, hsq,
      (operandAt_concat_of_lt hq).mp hoperand, ?_⟩
    intro r hsr hrq hr
    exact hfirst r hsr hrq ((operandAt_concat_of_lt (by omega)).mpr hr)
  · rintro ⟨hs, hsq, hoperand, hfirst⟩
    refine ⟨(signAt_concat_of_lt (by omega)).mpr hs, hsq,
      (operandAt_concat_of_lt hq).mpr hoperand, ?_⟩
    intro r hsr hrq hr
    exact hfirst r hsr hrq ((operandAt_concat_of_lt (by omega)).mp hr)

/-- A sign ends at the lexeme that comes next if it is an operand for which the sign waited. -/
theorem signEnds_length : SignEnds symbols (own ++ [l]) s own.length ↔
    SignWaits symbols own s ∧ l.isOperand symbols := by
  constructor
  · rintro ⟨hs, hlt, hoperand, hfirst⟩
    refine ⟨⟨(signAt_concat_of_lt hlt).mp hs, fun r hsr hr => ?_⟩, ?_⟩
    · exact hfirst r hsr hr.lt (operandAt_concat.mpr (Or.inl hr))
    · rcases operandAt_concat.mp hoperand with h | ⟨-, h⟩
      · exact absurd h.lt (Nat.lt_irrefl _)
      · exact h
  · rintro ⟨⟨hs, hwaits⟩, hoperand⟩
    refine ⟨(signAt_concat_of_lt hs.lt).mpr hs, hs.lt,
      operandAt_concat.mpr (Or.inr ⟨rfl, hoperand⟩), ?_⟩
    intro r hsr hr h
    exact hwaits r hsr ((operandAt_concat_of_lt hr).mp h)

/-- The signs that wait behind one lexeme more. -/
theorem signWaits_concat : SignWaits symbols (own ++ [l]) s ↔
    SignWaits symbols own s ∧ ¬ l.isOperand symbols ∨
      s = own.length ∧ l.kind = .minus ∧ SignNext own := by
  constructor
  · rintro ⟨hs, hwaits⟩
    rcases signAt_concat.mp hs with hs | hs
    · refine Or.inl ⟨⟨hs, fun r hsr hr => ?_⟩, fun hl => ?_⟩
      · exact hwaits r hsr (operandAt_concat.mpr (Or.inl hr))
      · exact hwaits _ hs.lt (operandAt_concat.mpr (Or.inr ⟨rfl, hl⟩))
    · exact Or.inr hs
  · rintro (⟨⟨hs, hwaits⟩, hl⟩ | ⟨rfl, hl⟩)
    · refine ⟨signAt_concat.mpr (Or.inl hs), fun r hsr hr => ?_⟩
      rcases operandAt_concat.mp hr with hr | ⟨-, hoperand⟩
      · exact hwaits r hsr hr
      · exact hl hoperand
    · refine ⟨signAt_concat.mpr (Or.inr ⟨rfl, hl⟩), fun r hr hoperand => ?_⟩
      have := hoperand.lt
      rw [List.length_append, List.length_singleton] at this
      omega

theorem SignsApart.concat (h : SignsApart symbols own)
    (hl : l.kind = .minus → SignNext own → ∀ s, ¬ SignWaits symbols own s) :
    SignsApart symbols (own ++ [l]) := by
  intro s r hs hr hsr
  have hs : SignAt own s := by
    rcases signAt_concat.mp hs with hs | ⟨rfl, -⟩
    · exact hs
    · have := hr.lt
      rw [List.length_append, List.length_singleton] at this
      omega
  rcases signAt_concat.mp hr with hr | ⟨rfl, hk, hnext⟩
  · obtain ⟨q, hsq, hqr, hq⟩ := h s r hs hr hsr
    exact ⟨q, hsq, hqr, operandAt_concat.mpr (Or.inl hq)⟩
  · by_contra hnone
    refine hl hk hnext s ⟨hs, fun q hsq hq => hnone ⟨q, hsq, hq.lt, ?_⟩⟩
    exact operandAt_concat.mpr (Or.inl hq)

theorem SignsApart.of_concat (h : SignsApart symbols (own ++ [l])) : SignsApart symbols own := by
  intro s r hs hr hsr
  obtain ⟨q, hsq, hqr, hq⟩ := h s r (signAt_concat.mpr (Or.inl hs)) (signAt_concat.mpr (Or.inl hr))
    hsr
  have hlt := hr.lt
  exact ⟨q, hsq, hqr, (operandAt_concat_of_lt (by omega)).mp hq⟩

/-- No sign waits where the next one comes. -/
theorem SignsApart.not_signWaits (h : SignsApart symbols (own ++ [l])) (hl : l.kind = .minus)
    (hnext : SignNext own) : ¬ SignWaits symbols own s := by
  rintro ⟨hs, hwaits⟩
  have hlast : SignAt (own ++ [l]) own.length := signAt_concat.mpr (Or.inr ⟨rfl, hl, hnext⟩)
  obtain ⟨q, hsq, hq, hoperand⟩ := h s own.length (signAt_concat.mpr (Or.inl hs)) hlast hs.lt
  exact hwaits q hsq ((operandAt_concat_of_lt hq).mp hoperand)

/-- A sign that does not wait ends. If there is an operand between any two signs, it ends before
the next one. -/
theorem SignAt.ends (hs : SignAt own s) (hwaits : ¬ SignWaits symbols own s)
    (hapart : SignsApart symbols own) :
    ∃ q, SignEnds symbols own s q ∧ ∀ r, s < r → r ≤ q → ¬ SignAt own r := by
  have hexists : ∃ q, s < q ∧ OperandAt symbols own q := by
    by_contra hnone
    exact hwaits ⟨hs, fun r hsr hr => hnone ⟨r, hsr, hr⟩⟩
  classical
  obtain ⟨hsq, hq⟩ := Nat.find_spec hexists
  have hfirst (r : Nat) (hsr : s < r) (hr : r < Nat.find hexists) : ¬ OperandAt symbols own r :=
    fun hoperand => Nat.find_min hexists hr ⟨hsr, hoperand⟩
  refine ⟨Nat.find hexists, ⟨hs, hsq, hq, hfirst⟩, fun r hsr hrq hr => ?_⟩
  rcases Nat.eq_or_lt_of_le hrq with rfl | hrq
  · exact hq.not_sign hr
  · obtain ⟨p, hsp, hpr, hp⟩ := hapart s r hs hr hsr
    exact hfirst p hsp (by omega) hp

/-- Behind the sign at `s` no operand comes before the next sign does. -/
def SignLost (symbols : Symbol.Table) (own : List Lexeme) (s : Nat) : Prop :=
  SignAt own s ∧ ∀ q, s < q → OperandAt symbols own q → ∃ r, s < r ∧ r < q ∧ SignAt own r

theorem not_signLost_iff : (∀ s, ¬ SignLost symbols own s) ↔
    SignsApart symbols own ∧ ∀ s, ¬ SignWaits symbols own s := by
  constructor
  · intro h
    have hoperand (s : Nat) (hs : SignAt own s) :
        ∃ q, s < q ∧ OperandAt symbols own q ∧ ∀ r, s < r → r < q → ¬ SignAt own r := by
      by_contra hnone
      refine h s ⟨hs, fun q hsq hq => ?_⟩
      by_contra hquiet
      exact hnone ⟨q, hsq, hq, fun r hsr hrq hr => hquiet ⟨r, hsr, hrq, hr⟩⟩
    refine ⟨fun s r hs hr hsr => ?_, fun s hs => ?_⟩
    · obtain ⟨q, hsq, hq, hquiet⟩ := hoperand s hs
      refine ⟨q, hsq, ?_, hq⟩
      by_contra hrq
      rcases Nat.eq_or_lt_of_le (Nat.le_of_not_lt hrq) with rfl | hlt
      · exact hq.not_sign hr
      · exact hquiet r hsr hlt hr
    · obtain ⟨q, hsq, hq, -⟩ := hoperand s hs.1
      exact hs.2 q hsq hq
  · rintro ⟨hapart, hwaits⟩ s ⟨hs, hlost⟩
    obtain ⟨q, hends, hquiet⟩ := hs.ends (hwaits s) hapart
    obtain ⟨r, hsr, hrq, hr⟩ := hlost q hends.behind hends.operand
    exact hquiet r hsr (Nat.le_of_lt hrq) hr

end Lexeme
end Ttm
