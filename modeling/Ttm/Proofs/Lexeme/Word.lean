import Ttm.Lexeme.Word

/-! Which texts are literals, and the numbers that digits stand for. -/
namespace Ttm.Lexeme

variable {limits : Limits} {text : String} {cs : List Char} {max n : Nat}

theorem ofDigitChars_le (cs : List Char) (n : Nat) : n ≤ Nat.ofDigitChars 10 cs n := by
  rw [Nat.ofDigitChars_eq_ofDigitChars_zero]
  exact Nat.le_add_right_of_le (Nat.le_mul_of_pos_left n (Nat.pow_pos (by decide)))

/-- Digits are read up to a largest number. -/
theorem decimal?_eq : decimal? max cs =
    if Nat.ofDigitChars 10 cs 0 ≤ max then some (Nat.ofDigitChars 10 cs 0) else none := by
  have hfrom (cs : List Char) (acc : Nat) (hacc : acc ≤ max) :
      cs.foldlM (fun acc c =>
        let value := acc * 10 + (c.toNat - '0'.toNat)
        if value ≤ max then some value else none) acc =
      if Nat.ofDigitChars 10 cs acc ≤ max then some (Nat.ofDigitChars 10 cs acc) else none := by
    induction cs generalizing acc with
    | nil => simp [hacc]
    | cons c cs ih =>
      rw [List.foldlM_cons, Nat.ofDigitChars_cons, Nat.mul_comm 10 acc]
      by_cases hvalue : acc * 10 + (c.toNat - '0'.toNat) ≤ max
      · simp only [if_pos hvalue]
        exact ih _ hvalue
      · have hle := ofDigitChars_le cs (acc * 10 + (c.toNat - '0'.toNat))
        have hover : ¬ Nat.ofDigitChars 10 cs (acc * 10 + (c.toNat - '0'.toNat)) ≤ max := by omega
        simp only [if_neg hvalue, if_neg hover]
        rfl
  exact hfrom cs 0 (Nat.zero_le max)

/-- Kinds whose lexemes are all written alike. -/
def Kind.fixed : List Kind := (recognizers.take 27).map (·.kind)

theorem pattern_of_fixed : ∀ r ∈ recognizers.take 27, r.pattern = .exact r.kind.text := by decide

theorem accepts_of_fixed {r : Recognizer} (hr : r ∈ recognizers.take 27) :
    r.accepts text = (text == r.kind.text) := by
  rw [Recognizer.accepts, pattern_of_fixed r hr, Pattern.accepts]

/-- Lexemes of different fixed kinds are written differently. -/
theorem eq_of_text_eq : ∀ r ∈ recognizers.take 27, ∀ r' ∈ recognizers.take 27,
    r.kind.text = r'.kind.text → r = r' := by
  decide

theorem ofText?_text {k : Kind} (hk : k ∈ Kind.fixed) : Kind.ofText? k.text = some k := by
  obtain ⟨r, hr, rfl⟩ := List.mem_map.mp hk
  have hfind : (recognizers.take 27).find? (·.accepts r.kind.text) = some r := by
    cases h : (recognizers.take 27).find? (·.accepts r.kind.text) with
    | none =>
      have hnot := List.find?_eq_none.mp h r hr
      rw [accepts_of_fixed hr, beq_self_eq_true] at hnot
      exact (hnot rfl).elim
    | some r' =>
      have hr' := List.mem_of_find?_eq_some h
      have haccepts := List.find?_some h
      rw [accepts_of_fixed hr', beq_iff_eq] at haccepts
      rw [eq_of_text_eq r hr r' hr' haccepts]
  rw [Kind.ofText?, ← List.take_append_drop 27 recognizers, List.find?_append, hfind]
  rfl

/-- A lexeme of a fixed kind has one text. -/
theorem ofText?_eq_fixed {k : Kind} (hk : k ∈ Kind.fixed) :
    Kind.ofText? text = some k ↔ text = k.text := by
  constructor
  · intro h
    unfold Kind.ofText? at h
    obtain ⟨r, hr, rfl⟩ := Option.map_eq_some_iff.mp h
    have haccepts := List.find?_some hr
    have hpattern : ∀ r ∈ recognizers, r.kind ∈ Kind.fixed → r.pattern = .exact r.kind.text := by
      decide
    rw [Recognizer.accepts, hpattern r (List.mem_of_find?_eq_some hr) hk, Pattern.accepts,
      beq_iff_eq] at haccepts
    exact haccepts
  · rintro rfl
    exact ofText?_text hk

/-- A text that begins as no fixed one is an identifier, a string or an integer. -/
theorem ofText?_of_head {p : Char → Bool} {c : Char} (hc : text.toList.head? = some c) (hp : p c)
    (hfixed : ∀ k ∈ Kind.fixed, k.text.toList.head?.any p = false) :
    Kind.ofText? text =
      if Pattern.identifier.accepts text then some .identifier
      else if Pattern.string.accepts text then some .string
      else if Pattern.integer.accepts text then some .integer
      else none := by
  have hnone : (recognizers.take 27).find? (·.accepts text) = none := by
    rw [List.find?_eq_none]
    intro r hr haccepts
    rw [Recognizer.accepts, pattern_of_fixed r hr, Pattern.accepts, beq_iff_eq] at haccepts
    have hhead := hfixed r.kind (List.mem_map_of_mem hr)
    rw [← haccepts, hc] at hhead
    simp [hp] at hhead
  have hsplit : recognizers = recognizers.take 27 ++
      [⟨.identifier, .identifier⟩, ⟨.string, .string⟩, ⟨.integer, .integer⟩] := rfl
  rw [Kind.ofText?, hsplit, List.find?_append, hnone, Option.none_or]
  simp only [List.find?_cons, Recognizer.accepts]
  cases Pattern.identifier.accepts text <;> cases Pattern.string.accepts text <;>
    cases Pattern.integer.accepts text <;> rfl

theorem isLetter_of_isDigit {c : Char} (h : c.isDigit) : isLetter c = false := by
  simp only [Char.isDigit, Bool.and_eq_true, decide_eq_true_eq, ge_iff_le] at h
  obtain ⟨hlow, hhigh⟩ := h
  rw [UInt32.le_iff_toNat_le] at hlow hhigh
  have hne : c ≠ '_' := by
    rintro rfl
    exact absurd hhigh (by decide)
  have hupper : c.isUpper = false := by
    refine decide_eq_false ?_
    rintro ⟨hletter, -⟩
    exact absurd (Nat.le_trans (UInt32.le_iff_toNat_le.mp hletter) hhigh) (by decide)
  have hlower : c.isLower = false := by
    refine Bool.and_eq_false_iff.mpr (Or.inl (decide_eq_false ?_))
    intro hletter
    exact absurd (Nat.le_trans (UInt32.le_iff_toNat_le.mp hletter) hhigh) (by decide)
  have halpha : c.isAlpha = false := Bool.or_eq_false_iff.mpr ⟨hupper, hlower⟩
  simp [isLetter, halpha, hne]

theorem ofText?_of_isInteger (h : isInteger text.toList) : Kind.ofText? text = some .integer := by
  cases hcs : text.toList with
  | nil => simp [isInteger, hcs] at h
  | cons c rest =>
    have hdigit : c.isDigit := by
      simp only [isInteger, hcs, List.all_cons, Bool.and_eq_true] at h
      exact h.2.1
    have hletter : isLetter c = false := isLetter_of_isDigit hdigit
    have hquote : c ≠ '\'' := by
      rintro rfl
      cases hdigit
    have hidentifier : Pattern.identifier.accepts text = false := by
      simp [Pattern.accepts, hcs, isIdentifier, hletter]
    have hstring : Pattern.string.accepts text = false := by
      simp [Pattern.accepts, hcs, isString, hquote]
    have hinteger : Pattern.integer.accepts text = true := h
    rw [@ofText?_of_head _ text Char.isDigit c (by rw [hcs]; rfl) hdigit (by decide), hidentifier,
      hstring, hinteger]
    rfl

theorem ofText?_quoted {content : String} (h : '\'' ∉ content.toList) :
    Kind.ofText? ("'" ++ content ++ "'") = some .string := by
  have hcs : ("'" ++ content ++ "'").toList = '\'' :: (content.toList ++ ['\'']) := by
    simp [String.toList_append]
  have hidentifier : Pattern.identifier.accepts ("'" ++ content ++ "'") = false := by
    simp only [Pattern.accepts, hcs, isIdentifier]
    rfl
  have hstring : Pattern.string.accepts ("'" ++ content ++ "'") = true := by
    simp [Pattern.accepts, hcs, isString, h]
  rw [@ofText?_of_head _ _ (· == '\'') '\'' (by rw [hcs]; rfl) rfl (by decide), hidentifier,
    hstring]
  rfl

/-- A quote without another one behind it is no lexeme. -/
theorem ofText?_unclosed (hcs : text.toList = '\'' :: cs) (h : '\'' ∉ cs) :
    Kind.ofText? text = none := by
  have hlast : cs.getLast? ≠ some '\'' := fun hlast => h (List.mem_of_getLast? hlast)
  have hidentifier : Pattern.identifier.accepts text = false := by
    simp only [Pattern.accepts, hcs, isIdentifier]
    rfl
  have hstring : Pattern.string.accepts text = false := by
    simp [Pattern.accepts, hcs, isString, hlast]
  have hinteger : Pattern.integer.accepts text = false := by
    simp only [Pattern.accepts, hcs, isInteger]
    rfl
  rw [@ofText?_of_head _ _ (· == '\'') '\'' (by rw [hcs]; rfl) rfl (by decide), hidentifier,
    hstring, hinteger]
  rfl

end Ttm.Lexeme
