import Ttm.Proofs.Source.Segments

/-!
Splitting finds all tokens of a delimited text where they are within the bound, and otherwise breaks
off at the first one above it. It notes the tokens on the way if it is asked to.
-/
namespace Ttm.Source.Token

/-- The tokens of some segments, the first of which stands on `line`. -/
def tokensFrom : Nat → List (List UInt8) → List Token
  | _, [] => []
  | line, segment :: rest =>
    if isLineMark segment then tokensFrom (line + segment.length) rest
    else ⟨textOfBytes segment, line⟩ :: tokensFrom line rest

/-- What is noted of tokens that are found. -/
def traced (trace : Bool) (tokens : List Token) : List Note :=
  if trace then tokens.map .token else []

/-- What is noted of a token above the bound. -/
def excessNote (max line : Nat) : Note :=
  .failed (.tooManyTokens (max + 1) max line) "Token limit exceeded" none
    [("limit", Nat.repr max), ("line", Nat.repr line)]

variable {trace : Bool} {max line : Nat} {segment text : List UInt8}
  {segments : List (List UInt8)} {found tokens before behind : List Token} {token : Token}
  {f : Found}

theorem tokensFrom_of_lineMark (h : isLineMark segment) :
    tokensFrom line (segment :: segments) = tokensFrom (line + segment.length) segments :=
  if_pos h

theorem tokensFrom_of_not_lineMark (h : isLineMark segment = false) :
    tokensFrom line (segment :: segments) =
      ⟨textOfBytes segment, line⟩ :: tokensFrom line segments :=
  if_neg (by rw [h]; nofun)

theorem foldl_collect :
    (segments.foldl collect (found, line)).1 = (tokensFrom line segments).reverse ++ found := by
  induction segments generalizing found line with
  | nil => rfl
  | cons segment segments ih =>
    rw [List.foldl_cons, collect]
    cases hmark : isLineMark segment with
    | true => rw [if_pos rfl, ih, tokensFrom_of_lineMark hmark]
    | false =>
      rw [if_neg Bool.false_ne_true, ih, tokensFrom_of_not_lineMark hmark, List.reverse_cons,
        List.append_assoc, List.singleton_append]

theorem ofDelimited_eq : ofDelimited text = tokensFrom 1 (Token.segments text) := by
  rw [ofDelimited, foldl_collect, List.append_nil, List.reverse_reverse]

theorem traced_cons (token : Token) (tokens : List Token) :
    traced trace (token :: tokens) =
      (if trace then [.token token] else []) ++ traced trace tokens := by
  cases trace <;> rfl

/-- A token found is noted in front of the notes so far. -/
theorem notes_add (text : String) :
    (f.add trace text).notes = (if trace then [.token ⟨text, f.line⟩] else []) ++ f.notes := by
  cases trace <;> rfl

theorem size_add (text : String) : (f.add trace text).tokens.size = f.tokens.size + 1 :=
  Array.size_push ..

/-- Tokens within the bound are all found. -/
theorem find_of_length_le (h : f.tokens.size + (tokensFrom f.line segments).length ≤ max) :
    ∃ f', find trace max segments f = (.ok (), f') ∧
      f'.tokens.toList = f.tokens.toList ++ tokensFrom f.line segments ∧
      f'.notes = (traced trace (tokensFrom f.line segments)).reverse ++ f.notes := by
  induction segments generalizing f with
  | nil => exact ⟨f, rfl, by simp [tokensFrom], by cases trace <;> rfl⟩
  | cons segment segments ih =>
    rw [find]
    cases hmark : isLineMark segment with
    | true =>
      rw [tokensFrom_of_lineMark hmark] at h ⊢
      exact ih (f := f.skipLines segment.length) h
    | false =>
      rw [tokensFrom_of_not_lineMark hmark] at h ⊢
      rw [List.length_cons] at h
      have hroom : ¬ max ≤ f.tokens.size := by omega
      obtain ⟨f', hfind, htokens, hnotes⟩ := ih (f := f.add trace (textOfBytes segment))
        (by rw [size_add]; show _ + (tokensFrom f.line segments).length ≤ max; omega)
      refine ⟨f', ?_, ?_, ?_⟩
      · rw [if_neg Bool.false_ne_true, if_neg hroom, hfind]
      · rw [htokens]
        simp [Found.add]
      · rw [hnotes, notes_add, traced_cons, List.reverse_append]
        cases trace <;> simp [Found.add]

/-- The first token above the bound ends the search. -/
theorem find_of_excess (h : tokensFrom f.line segments = before ++ token :: behind)
    (hbefore : f.tokens.size + before.length = max) :
    ∃ f', find trace max segments f = (.error (.tooManyTokens (max + 1) max token.line), f') ∧
      f'.notes = excessNote max token.line :: ((traced trace before).reverse ++ f.notes) := by
  induction segments generalizing f before with
  | nil => simp [tokensFrom] at h
  | cons segment segments ih =>
    rw [find]
    cases hmark : isLineMark segment with
    | true =>
      rw [tokensFrom_of_lineMark hmark] at h
      exact ih (f := f.skipLines segment.length) h hbefore
    | false =>
      rw [tokensFrom_of_not_lineMark hmark] at h
      rw [if_neg Bool.false_ne_true]
      cases before with
      | nil =>
        -- as many tokens as allowed are found, and this is one more
        obtain ⟨rfl, -⟩ := List.cons.inj h
        obtain rfl : f.tokens.size = max := hbefore
        rw [if_pos (Nat.le_refl _)]
        exact ⟨_, rfl, by cases trace <;> rfl⟩
      | cons first before =>
        obtain ⟨rfl, hrest⟩ := List.cons.inj h
        rw [List.length_cons] at hbefore
        have hroom : ¬ max ≤ f.tokens.size := by omega
        obtain ⟨f', hfind, hnotes⟩ := ih (f := f.add trace (textOfBytes segment)) hrest
          (by rw [size_add]; omega)
        refine ⟨f', by rw [if_neg hroom, hfind], ?_⟩
        rw [hnotes, notes_add, traced_cons, List.reverse_append]
        cases trace <;> simp

theorem split_of_length_le (h : (ofDelimited text).length ≤ max) :
    split trace max text = ⟨.ok (ofDelimited text), traced trace (ofDelimited text)⟩ := by
  rw [ofDelimited_eq] at h ⊢
  have hroom : ({} : Found).tokens.size + (tokensFrom 1 (Token.segments text)).length ≤ max := by
    rwa [Array.size_empty, Nat.zero_add]
  obtain ⟨f, hfind, htokens, hnotes⟩ := @find_of_length_le trace _ _ _ hroom
  simp [split, hfind, htokens, hnotes, Except.map]

theorem split_of_excess (h : ofDelimited text = before ++ token :: behind)
    (hbefore : before.length = max) :
    split trace max text = ⟨.error (.tooManyTokens (max + 1) max token.line),
      traced trace before ++ [excessNote max token.line]⟩ := by
  rw [ofDelimited_eq] at h
  have hsize : ({} : Found).tokens.size + before.length = max := by
    rwa [Array.size_empty, Nat.zero_add]
  obtain ⟨f, hfind, hnotes⟩ := @find_of_excess trace _ _ _ _ _ _ h hsize
  simp [split, hfind, hnotes, Except.map]

/-- Tokens are within a bound, or there is a first one above it. -/
theorem length_le_or_excess (max : Nat) (tokens : List Token) : tokens.length ≤ max ∨
    ∃ before token behind, tokens = before ++ token :: behind ∧ before.length = max := by
  rcases Nat.lt_or_ge max tokens.length with hlt | hle
  · exact Or.inr ⟨tokens.take max, tokens[max], tokens.drop (max + 1), by simp,
      by rw [List.length_take]; omega⟩
  · exact Or.inl hle

theorem result_split : (split trace max text).result =
    match ((ofDelimited text).drop max).head? with
    | none => .ok (ofDelimited text)
    | some token => .error (.tooManyTokens (max + 1) max token.line) := by
  rcases length_le_or_excess max (ofDelimited text) with hle | ⟨before, token, behind, h, hbefore⟩
  · rw [split_of_length_le hle, List.drop_eq_nil_of_le hle, List.head?_nil]
  · rw [split_of_excess h hbefore, h, List.drop_left' hbefore, List.head?_cons]

end Ttm.Source.Token
