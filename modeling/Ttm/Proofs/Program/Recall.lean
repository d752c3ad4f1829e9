import Ttm.Proofs.Program.Piece

/-! What tokens say behind those before them, and what the end of the lexeme table tells of them. -/
namespace Ttm

open Lexeme (Kind)
open Source (Token)

/-- A lexeme of such a kind is written alone, and only for a token of its own. -/
def Lexeme.Kind.Unsigned (k : Kind) : Prop :=
  k ≠ .identifier ∧ k ≠ .literal ∧ k ≠ .minus ∧ k ≠ .closeParen

instance (k : Kind) : Decidable k.Unsigned := inferInstanceAs (Decidable (_ ∧ _))

/-- The type that a datatype names. -/
def Source.Token.type? [Limits] (token : Token) : Option DataType :=
  (Kind.ofText? token.text).bind Program.Scan.datatype?

namespace Program

/-- What the tokens of a list say, one after another, each told the tokens in front of it. -/
def gather {α : Type} (say : List Token → Token → Option α) : List Token → List Token → List α
  | _, [] => []
  | done, token :: rest => (say done token).toList ++ gather say (done ++ [token]) rest

section
variable {α : Type} {say say' : List Token → Token → Option α} {done done' tokens : List Token}
  {token : Token} {a : α}

theorem gather_append {rest : List Token} : gather say done (tokens ++ rest) =
    gather say done tokens ++ gather say (done ++ tokens) rest := by
  induction tokens generalizing done with
  | nil => simp [gather]
  | cons token tokens ih =>
    rw [List.cons_append, gather, gather, ih, List.append_assoc, List.append_assoc,
      List.singleton_append]

theorem gather_concat : gather say [] (done ++ [token]) =
    gather say [] done ++ (say done token).toList := by
  rw [gather_append, List.nil_append]
  simp [gather]

theorem mem_gather : a ∈ gather say done tokens ↔
    ∃ before token after, tokens = before ++ token :: after ∧
      say (done ++ before) token = some a := by
  induction tokens generalizing done with
  | nil => simp [gather]
  | cons token tokens ih =>
    rw [gather, List.mem_append, Option.mem_toList, ih]
    constructor
    · rintro (h | ⟨before, next, after, rfl, h⟩)
      · exact ⟨[], token, tokens, rfl, by rwa [List.append_nil]⟩
      · exact ⟨token :: before, next, after, rfl, by rwa [← List.append_cons] at h⟩
    · rintro ⟨before, next, after, heq, h⟩
      cases before with
      | nil =>
        obtain ⟨rfl, rfl⟩ := List.cons.inj heq
        exact Or.inl (by rwa [List.append_nil] at h)
      | cons first before =>
        obtain ⟨rfl, rfl⟩ := List.cons.inj heq
        exact Or.inr ⟨before, next, after, rfl, by rwa [← List.append_cons]⟩

theorem gather_congr (h : ∀ before token after, tokens = before ++ token :: after →
    say (done ++ before) token = say' (done' ++ before) token) :
    gather say done tokens = gather say' done' tokens := by
  induction tokens generalizing done done' with
  | nil => rfl
  | cons token tokens ih =>
    have hfirst := h [] token tokens rfl
    rw [List.append_nil, List.append_nil] at hfirst
    rw [gather, gather, hfirst, ih fun before next after heq => ?_]
    rw [← List.append_cons, ← List.append_cons]
    exact h (token :: before) next after (by rw [heq]; rfl)

theorem gather_eq_nil (h : ∀ before token after, tokens = before ++ token :: after →
    say (done ++ before) token = none) : gather say done tokens = [] := by
  refine List.eq_nil_iff_forall_not_mem.mpr fun a ha => ?_
  obtain ⟨before, token, after, heq, hsay⟩ := mem_gather.mp ha
  rw [h before token after heq] at hsay
  cases hsay

end

/-- The kind of the token `n` places before the last one. -/
def recent? [Limits] (done : List Token) (n : Nat) : Option Kind :=
  done.reverse[n]?.bind Token.kind?

/-- The end of the lexeme table agrees with the last two tokens. -/
structure Recalls [Limits] (done : List Token) (s : Scan.State) : Prop where
  last : ∀ k : Kind, k.Unsigned →
    (s.program.lexemes.kindFromEnd? 1 = some k ↔ recent? done 0 = some k)
  before : ∀ k : Kind, k.Unsigned → s.program.lexemes.kindFromEnd? 2 = some k →
    recent? done 1 = some k
  both : ∀ k l : Kind, k.Unsigned → l.Unsigned → recent? done 1 = some k →
    recent? done 0 = some l → s.program.lexemes.kindFromEnd? 2 = some k
  type : ∀ token type, done.getLast? = some token → token.type? = some type →
    s.pendingType = some type

variable {limits : Limits} {done : List Token} {token : Token} {called : Bool} {s t : Scan.State}
  {n : Nat} {k : Kind} {type : DataType} {b : Piece}

theorem recent?_concat : recent? (done ++ [token]) 0 = token.kind? := by
  simp [recent?]

theorem recent?_concat_succ : recent? (done ++ [token]) (n + 1) = recent? done n := by
  simp [recent?]

theorem kind?_of_type? (h : token.type? = some type) : token.kind? = some .datatype := by
  obtain ⟨k, hk, ht⟩ := Option.bind_eq_some_iff.mp h
  rw [Token.kind?_of_ofText? hk]
  rcases Scan.datatype?_eq_some ht with ⟨rfl, -⟩ | ⟨rfl, -⟩ <;> rfl

theorem type?_of_kind? (h : token.kind? = some .datatype) : ∃ type, token.type? = some type := by
  obtain ⟨k, hk, hwritten⟩ := Option.map_eq_some_iff.mp h
  have hmem := Scan.mem_of_ofText? hk
  rw [Token.type?, hk, Option.bind_some, ← Option.isSome_iff_exists]
  revert hwritten hmem
  cases k <;> decide

namespace Scan

/-- A datatype is the type of the next declaration. -/
theorem Step.pendingType (h : Step token called s t) (ht : token.type? = some type) :
    t.pendingType = some type := by
  obtain ⟨k, hk, hd⟩ := Option.bind_eq_some_iff.mp ht
  have hkind : k = .i32 ∨ k = .str := (datatype?_eq_some hd).imp And.left And.left
  have hne {l : Kind} (hl : Kind.ofText? token.text = some l) : l = .i32 ∨ l = .str := by
    rwa [← Option.some.inj (hk.symm.trans hl)]
  cases h with
  | datatype hk' hd' =>
    obtain rfl := Option.some.inj (hk.symm.trans hk')
    exact hd'.symm.trans hd
  | refer hr hw =>
    rcases hr.kind with ⟨hl, -⟩ | ⟨hl, -⟩ | ⟨hl | hl, -⟩ <;> have := hne hl <;> simp at this
  | sign hl | minus hl => have := hne hl; simp at this
  | enter hl hb | leave hl hb => rcases hb with rfl | rfl <;> have := hne hl <;> simp at this
  | plain hl hp => rcases hne hl with rfl | rfl <;> cases hp

end Scan

/-- The kinds at the end of a table behind one piece more. -/
theorem Scan.Writes.kindFromEnd? {line : Nat} (h : Scan.Writes line s t b)
    (hlexemes : t.program.lexemes.toList = s.program.lexemes.toList ++ b.all) (hk : k.Unsigned) :
    (t.program.lexemes.kindFromEnd? 1 = some k ↔ b.lexeme.kind = k) ∧
    (t.program.lexemes.kindFromEnd? 2 = some k → s.program.lexemes.kindFromEnd? 1 = some k) ∧
    (b.lexeme.kind.Unsigned →
      t.program.lexemes.kindFromEnd? 2 = s.program.lexemes.kindFromEnd? 1) := by
  have hkinds : t.program.lexemes.kinds = s.program.lexemes.kinds ++ b.all.map (·.kind) := by
    rw [Lexeme.Table.kinds, hlexemes, List.map_append]
    rfl
  simp only [Lexeme.Table.kindFromEnd?_eq, hkinds, List.reverse_append]
  obtain ⟨hidentifier, hliteral, hminus, hclose⟩ := hk
  cases h with
  | sign =>
    refine ⟨?_, ?_, fun hunsigned => absurd rfl hunsigned.2.2.1⟩
    · simp [Piece.all]
    · simp [Piece.all, hliteral.symm]
  | @closing l hl =>
    have hoperand : l.kind = .identifier ∨ l.kind = .literal := by
      rcases h' : l.kind <;> simp_all [Lexeme.isOperand]
    refine ⟨?_, ?_, fun hunsigned => ?_⟩
    · simp only [Piece.all, List.nil_append, List.map_cons, List.map_nil, List.reverse_cons,
        List.reverse_nil, List.cons_append, List.getElem?_cons_zero, Option.some.injEq]
      constructor
      · exact fun h => absurd h.symm hclose
      · rintro rfl
        rcases hoperand with h | h
        · exact absurd h hidentifier
        · exact absurd h hliteral
    · intro h
      have h : l.kind = k := by simpa [Piece.all] using h
      rcases hoperand with h' | h'
      · exact absurd (h.symm.trans h') hidentifier
      · exact absurd (h.symm.trans h') hliteral
    · rcases hoperand with h | h
      · exact absurd h hunsigned.1
      · exact absurd h hunsigned.2.1
  | alone => simp [Piece.all]

theorem recalls_begin {settings : ScanSettings} {maxDepth : Nat} {symbols : Symbol.Table}
    {maxLexemes : Nat} :
    Recalls [] (.begin settings maxDepth symbols (.empty maxLexemes)) := by
  have hnone (n : Nat) :
      (Lexeme.Table.empty maxLexemes).kindFromEnd? (n + 1) = none := by
    rw [Lexeme.Table.kindFromEnd?_eq]
    rfl
  constructor
  · intro k _
    show (Lexeme.Table.empty maxLexemes).kindFromEnd? 1 = some k ↔ _
    rw [hnone]
    exact Iff.rfl
  · intro k _ h
    have h : (Lexeme.Table.empty maxLexemes).kindFromEnd? 2 = some k := h
    rw [hnone] at h
    cases h
  · intro k l _ _ h
    cases h
  · intro token type h
    cases h

theorem Recalls.step (h : Recalls done s) (hs : Scan.Step token called s t)
    (hindexed : s.program.symbols.Indexed) : Recalls (done ++ [token]) t := by
  obtain ⟨b, hb⟩ := hs.leaves hindexed
  constructor
  · intro k hk
    rw [recent?_concat, hb.kind, Option.some.injEq]
    exact (hb.writes.kindFromEnd? hb.lexemes hk).1
  · intro k hk hend
    rw [recent?_concat_succ]
    exact (h.last k hk).mp ((hb.writes.kindFromEnd? hb.lexemes hk).2.1 hend)
  · intro k l hk hl hk' hl'
    rw [recent?_concat_succ] at hk'
    rw [recent?_concat, hb.kind, Option.some.injEq] at hl'
    rw [(hb.writes.kindFromEnd? hb.lexemes hk).2.2 (hl' ▸ hl)]
    exact (h.last k hk).mpr hk'
  · intro last type hlast ht
    rw [List.getLast?_concat, Option.some.injEq] at hlast
    exact hs.pendingType (hlast ▸ ht)

end Program
end Ttm
