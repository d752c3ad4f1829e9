import Ttm.Proofs.Program.Interning
import Ttm.Proofs.Source.Run

/-! The string tokens of a program and the lexemes that stand for their texts. -/
namespace Ttm

open Lexeme (Kind)
open Source (Token)

/-- The text of a literal that is one. -/
def Literal.string? : Literal → Option String
  | .integer _ => none
  | .string text => some text

namespace Program

/-- The lexemes of a program that are literals of type `str`. -/
def stringLexemes (p : Program) : List Lexeme :=
  (literalLexemes p).filter fun l => (l.symbol.bind p.symbols.get?).any (·.type == .str)

variable {limits : Limits} {done tokens : List Token} {token : Token} {called : Bool}
  {s t : Scan.State} {p : Program} {l : Lexeme} {v : Literal} {text : String}

section
variable {α β : Type} {say : List Token → Token → Option α} {f : α → Option β}
  {g : Token → Option β}

theorem filterMap_toList (o : Option α) : o.toList.filterMap f = (o.bind f).toList := by
  cases o with
  | none => rfl
  | some a =>
    rw [Option.toList_some, Option.bind_some, List.filterMap_cons, List.filterMap_nil]
    cases f a <;> rfl

theorem filterMap_gather (h : ∀ done token, (say done token).bind f = g token) :
    (gather say done tokens).filterMap f = tokens.filterMap g := by
  induction tokens generalizing done with
  | nil => rfl
  | cons token tokens ih =>
    have hfirst : ((say done token).toList).filterMap f = [token].filterMap g := by
      rw [filterMap_toList, h done token]
      exact (filterMap_toList (f := g) (some token)).symm
    rw [gather, List.filterMap_append, ih, hfirst, ← List.filterMap_append,
      List.singleton_append]

end

/-- Numbers and the zeros of signs apart, the literals of a token list are its string tokens. -/
theorem strings_literals :
    (literals tokens).filterMap Literal.string? = tokens.filterMap Token.string? := by
  refine filterMap_gather fun done token => ?_
  unfold literalOf? Token.string?
  split
  · next hminus =>
    have hkind : Kind.ofText? token.text ≠ some .string := fun h => by
      simp [Token.kind?, h, Kind.written] at hminus
    rw [if_neg hkind]
    split <;> rfl
  · unfold Token.literal?
    split
    · next h => rw [h]; rfl
    · next h => rw [h]; rfl
    · next hne =>
      rw [if_neg hne]
      rfl

/-- What a string literal stands for is what its type says. -/
theorem HasValue.isString (h : HasValue p.symbols l v) :
    (l.symbol.bind p.symbols.get?).any (·.type == .str) = v.string?.isSome := by
  obtain ⟨i, x, hi, hx, -, htype, -⟩ := h
  rw [hi, Option.bind_some, hx, Option.any_some, htype]
  cases v <;> rfl

/-- The string lexemes stand for the texts of the string tokens, one by one. -/
theorem forall₂_strings {ls : List Lexeme} {values : List Literal}
    (h : List.Forall₂ (HasValue p.symbols) ls values) :
    List.Forall₂ (fun l text => HasValue p.symbols l (.string text))
      (ls.filter fun l => (l.symbol.bind p.symbols.get?).any (·.type == .str))
      (values.filterMap Literal.string?) := by
  induction h with
  | nil => exact .nil
  | @cons l v ls values hl _ ih =>
    have hstring := hl.isString
    cases v with
    | integer n =>
      rw [List.filter_cons_of_neg (by simp [hstring, Literal.string?]),
        List.filterMap_cons_none rfl]
      exact ih
    | string text =>
      have htext : (Literal.string text).string? = some text := rfl
      rw [List.filter_cons_of_pos (by rw [hstring]; rfl), List.filterMap_cons_some htext]
      exact .cons hl ih

namespace Scan

/-- An accepted token is a lexeme. -/
theorem Step.ofText?_ne (h : Step token called s t) : Kind.ofText? token.text ≠ none := by
  intro hnone
  cases h with
  | datatype hk | sign hk | minus hk | enter hk | leave hk | plain hk =>
    rw [hk] at hnone
    cases hnone
  | refer hr =>
    have hkind := hr.kind?
    rw [Token.kind?, hnone] at hkind
    cases hkind

/-- An accepted string is not empty. -/
theorem Step.string?_ne (h : Step token called s t) : token.string? ≠ some "" := by
  intro hstring
  obtain ⟨hkind, hempty⟩ : Kind.ofText? token.text = some .string ∧
      String.ofList token.text.toList.tail.dropLast = "" := by
    unfold Token.string? at hstring
    split at hstring
    · next hkind => exact ⟨hkind, Option.some.inj hstring⟩
    · cases hstring
  have hnil : token.text.toList.tail.dropLast = [] := by simpa using congrArg String.toList hempty
  cases h with
  | datatype hk ht =>
    cases hkind.symm.trans hk
    cases ht
  | sign hk | minus hk => cases hkind.symm.trans hk
  | enter hk hb | leave hk hb =>
    cases hkind.symm.trans hk
    rcases hb with hb | hb <;> cases hb
  | plain hk hp =>
    cases hkind.symm.trans hk
    cases hp
  | refer hr =>
    cases hr with
    | found hk | declared hk | main hk | mainDeclared hk => cases hkind.symm.trans hk
    | literal hv =>
      simp only [literal?, hkind, hnil] at hv
      cases hv

theorem forall_of_scanTokens {P : Token → Prop}
    (hstep : ∀ token called u v, Step token called u v → P token)
    (h : scanTokens tokens s = .ok () t) : ∀ token ∈ tokens, P token := by
  refine scanTokens_history (P := fun done _ _ => ∀ token ∈ done, P token) ?_ (by simp) h
  rintro done token rest u v hdone htoken -
  rw [List.forall_mem_append, List.forall_mem_singleton]
  exact ⟨hdone, hstep _ _ _ _ htoken⟩

end Scan

variable {settings : ScanSettings} {maxDepth maxSymbols maxLexemes : Nat} {metrics : Metrics}

/-- What an accepted scan makes of the string tokens. -/
theorem strings_of_scan
    (h : (scan settings maxDepth tokens (empty maxSymbols maxLexemes)).result = .ok metrics) :
    (∀ token ∈ tokens, Kind.ofText? token.text ≠ none ∧ token.string? ≠ some "") ∧
      List.Forall₂ (fun l text => HasValue
          (scan settings maxDepth tokens (empty maxSymbols maxLexemes)).program.symbols l
            (.string text))
        (stringLexemes (scan settings maxDepth tokens (empty maxSymbols maxLexemes)).program)
        (tokens.filterMap Token.string?) := by
  obtain ⟨n, symbols, t, hr, hs, -, hscan⟩ := steps_of_scan h
  rw [hscan, ← strings_literals]
  exact ⟨Scan.forall_of_scanTokens (fun _ _ _ _ hstep => ⟨hstep.ofText?_ne, hstep.string?_ne⟩) hs,
    forall₂_strings (interning_of_scanTokens hr hs).lexemes⟩

end Program
end Ttm
