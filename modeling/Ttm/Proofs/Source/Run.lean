import Ttm.Proofs.Lexeme.Word
import Ttm.Proofs.Source.Munch
import Ttm.Proofs.Source.Segments

/-! The quoted runs of a source, closed or not, and the string tokens that are made of them. -/
namespace Ttm.Source

open Lexeme (Kind)
open Munch

/-- What stands behind a quote, up to the next quote or to the end of the line. -/
structure Run where
  content : List UInt8
  closed : Bool
  deriving DecidableEq, Repr

namespace Run

def inside (b : UInt8) : Bool := b != Byte.quote && b != Byte.newline

/-- The content, each byte as the character of the same number. -/
def text (r : Run) : String := Token.textOfBytes r.content

/-- Closed on its line, behind at most `maxString` bytes. -/
def Fits (maxString : Nat) (r : Run) : Prop := r.closed ∧ r.content.length ≤ maxString

end Run

/-- The runs of a source outside its comments. -/
def runs (source : List UInt8) : List Run :=
  match source with
  | [] => []
  | b :: rest =>
    if b = Byte.slash ∧ rest.head? = some Byte.slash then runs (rest.dropWhile (· != Byte.newline))
    else if b = Byte.quote then
      ⟨rest.takeWhile Run.inside, (rest.dropWhile Run.inside).head? == some Byte.quote⟩ ::
        runs (rest.dropWhile Run.inside).tail
    else runs rest
termination_by source.length
decreasing_by
  · exact Nat.lt_succ_of_le (List.length_dropWhile_le _ _)
  · rw [List.length_tail]
    exact Nat.lt_succ_of_le (Nat.sub_le_of_le_add (Nat.le_succ_of_le
      (List.length_dropWhile_le _ _)))
  · exact Nat.lt_succ_self _

/-- What a string token says between its quotes. -/
def Token.string? [Limits] (token : Token) : Option String :=
  if Kind.ofText? token.text = some .string then
    some (String.ofList token.text.toList.tail.dropLast)
  else none

variable {limits : Limits} {maxString line : Nat} {b : UInt8}
  {source rest content behind : List UInt8} {tokens : List Token} {p : UInt8 → Bool}

theorem runs_of_ne (hquote : b ≠ Byte.quote)
    (hcomment : ¬ (b = Byte.slash ∧ rest.head? = some Byte.slash)) :
    runs (b :: rest) = runs rest := by
  rw [runs, if_neg hcomment, if_neg hquote]

theorem runs_dropWhile (hquote : p Byte.quote = false) (hslash : p Byte.slash = false) :
    runs (rest.dropWhile p) = runs rest := by
  induction rest with
  | nil => rfl
  | cons b rest ih =>
    by_cases hb : p b
    · have hne {c : UInt8} (hc : p c = false) : b ≠ c := by
        rintro rfl
        simp [hc] at hb
      rw [List.dropWhile_cons_of_pos hb, ih, runs_of_ne (hne hquote) fun h => hne hslash h.1]
    · rw [List.dropWhile_cons_of_neg hb]

theorem runs_literal (hin : ∀ c ∈ content, Run.inside c) :
    runs (Byte.quote :: (content ++ Byte.quote :: behind)) = ⟨content, true⟩ :: runs behind := by
  have hcomment : ¬ (Byte.quote = Byte.slash ∧
      (content ++ Byte.quote :: behind).head? = some Byte.slash) := fun h => absurd h.1 (by decide)
  have hquote : ¬ Run.inside Byte.quote := by decide
  rw [runs, if_neg hcomment, if_pos rfl, List.takeWhile_append_of_pos hin,
    List.dropWhile_append_of_pos hin, List.takeWhile_cons_of_neg hquote,
    List.dropWhile_cons_of_neg hquote, List.append_nil]
  rfl

namespace Token

/-- A string token begins with a quote. -/
theorem string?_of_head (h : b ≠ Byte.quote) :
    Token.string? ⟨textOfBytes (b :: rest), line⟩ = none := by
  refine if_neg fun hkind => ?_
  obtain ⟨r, hr, hstring⟩ := Option.map_eq_some_iff.mp hkind
  have hpattern : ∀ r ∈ Lexeme.recognizers, r.kind = .string → r.pattern = .string := by decide
  have haccepts := List.find?_some hr
  rw [Lexeme.Recognizer.accepts, hpattern r (List.mem_of_find?_eq_some hr) hstring,
    Lexeme.Pattern.accepts, toList_textOfBytes, List.map_cons, Lexeme.isString,
    Bool.and_eq_true, Bool.and_eq_true, beq_iff_eq] at haccepts
  exact h (charOfByte_injective haccepts.1.1)

theorem string?_literal (hin : ∀ c ∈ content, Run.inside c) :
    Token.string? ⟨textOfBytes (Byte.quote :: content ++ [Byte.quote]), line⟩ =
      some (textOfBytes content) := by
  have htext : (textOfBytes (Byte.quote :: content ++ [Byte.quote])).toList =
      '\'' :: ((textOfBytes content).toList ++ ['\'']) := by
    simp [toList_textOfBytes, charOfByte_quote]
  have hquote : '\'' ∉ (textOfBytes content).toList :=
    quote_not_mem_textOfBytes fun h => absurd (hin _ h) (by decide)
  have hconcat : textOfBytes (Byte.quote :: content ++ [Byte.quote]) =
      "'" ++ textOfBytes content ++ "'" := by
    refine String.ext ?_
    simpa [String.toList_append] using htext
  unfold Token.string?
  rw [if_pos (by rw [hconcat]; exact Lexeme.ofText?_quoted hquote), htext, List.tail_cons,
    List.dropLast_concat, String.ofList_toList]

end Token

theorem inside_of_inQuotes (hin : ∀ c ∈ content, inQuotes c) : ∀ c ∈ content, Run.inside c := by
  intro c hc
  have h := hin c hc
  simp only [inQuotes, Bool.and_eq_true] at h
  simp only [Run.inside, Bool.and_eq_true]
  exact h.1

/-- The string tokens of the direct tokenizer are the runs of the source, and these are closed. -/
theorem runs_of_munch (h : munch maxString line source = some tokens) :
    tokens.filterMap Token.string? = (runs source).map Run.text ∧
      ∀ r ∈ runs source, r.Fits maxString := by
  fun_induction munch maxString line source generalizing tokens with
  | case1 =>
    cases h
    simp [runs]
  | case2 line rest ih =>
    rw [runs_of_ne (by decide) fun h => absurd h.1 (by decide)]
    exact ih h
  | case3 line b rest hnl hcomment ih =>
    rw [runs, if_pos hcomment]
    exact ih h
  | case4 line b rest hnl hcomment hblank ih =>
    rw [runs_of_ne (by rintro rfl; cases hblank) hcomment]
    exact ih h
  | case5 line b rest hnl hcomment hblank hword ih =>
    have hquote : b ≠ Byte.quote := by
      rintro rfl
      cases hword
    obtain ⟨tokens, hm, rfl⟩ := Option.map_eq_some_iff.mp h
    rw [runs_of_ne hquote hcomment, ← runs_dropWhile (p := inWord) rfl rfl,
      List.filterMap_cons_none (Token.string?_of_head hquote)]
    exact ih hm
  | case6 line b rest hnl hcomment hblank hword hjoins ih =>
    have hquote : b ≠ Byte.quote := by
      rintro rfl
      cases hjoins
    obtain ⟨tokens, hm, rfl⟩ := Option.map_eq_some_iff.mp h
    rw [runs_of_ne hquote hcomment, ← runs_dropWhile (p := inComparison) rfl rfl,
      List.filterMap_cons_none (Token.string?_of_head hquote)]
    exact ih hm
  | case7 line b rest hnl hcomment hblank hword hjoins hsingle ih =>
    have hquote : b ≠ Byte.quote := by
      rintro rfl
      cases hsingle
    obtain ⟨tokens, hm, rfl⟩ := Option.map_eq_some_iff.mp h
    rw [runs_of_ne hquote hcomment, List.filterMap_cons_none (Token.string?_of_head hquote)]
    exact ih hm
  | case8 => cases h
  | case9 line rest content behind hl hnl hcomment hblank hword hjoins hsingle ih =>
    obtain ⟨tokens, hm, rfl⟩ := Option.map_eq_some_iff.mp h
    obtain ⟨htexts, hfits⟩ := ih hm
    obtain ⟨rfl, hin, hlen⟩ := literal?_eq_some hl
    have hinside := inside_of_inQuotes hin
    rw [runs_literal hinside, List.filterMap_cons_some (Token.string?_literal hinside), htexts]
    exact ⟨rfl, List.forall_mem_cons.mpr ⟨⟨rfl, hlen⟩, hfits⟩⟩
  | case10 => cases h

end Ttm.Source
