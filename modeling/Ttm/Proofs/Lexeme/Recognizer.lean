import Mathlib.Data.List.Basic
import Ttm.Proofs.Lexeme.Word

/-!
Which recognisers accept one text, and when their order counts. Only a keyword is accepted by two of
them, and one of these is the recogniser of identifiers.
-/
namespace Ttm.Lexeme

def keywords : List String := ["i32", "str", "fn", "if", "else", "let", "ret", "echo", "main"]

def operators : List String :=
  ["(", ")", ";", ",", "\x7b", "\x7d", "+", "-", "*", "/", "%", "==", "!=", "<=", ">=", "=", "<",
    ">"]

def IsLetter (c : Char) : Prop := 'A' ≤ c ∧ c ≤ 'Z' ∨ 'a' ≤ c ∧ c ≤ 'z' ∨ c = '_'

def IsDigit (c : Char) : Prop := '0' ≤ c ∧ c ≤ '9'

/-- The languages that a text can be a word of. -/
inductive Language
  | keyword
  | operator
  | identifier
  | string
  | integer

/-- Letters and digits are those of ASCII, and the length of an identifier is counted in bytes. -/
def Language.Contains [Limits] : Language → String → Prop
  | keyword, text => text ∈ keywords
  | operator, text => text ∈ operators
  | identifier, text => ∃ first rest, text.toList = first :: rest ∧ IsLetter first ∧
      (∀ c ∈ rest, IsLetter c ∨ IsDigit c) ∧
      text.utf8ByteSize ≤ Limits.maxIdentifierLength
  | string, text => ∃ content : String, text = "'" ++ content ++ "'" ∧ '\'' ∉ content.toList
  | integer, text => text ≠ "" ∧ ∀ c ∈ text.toList, IsDigit c

def Recognizer.isKeyword (r : Recognizer) : Bool :=
  match r.pattern with
  | .exact text => keywords.contains text
  | _ => false

def identifierRecognizer : Recognizer := ⟨.identifier, .identifier⟩

/-- The kind that the first recogniser of a list finds for a text. -/
def firstKind? [Limits] (rs : List Recognizer) (text : String) : Option Kind :=
  (rs.find? (·.accepts text)).map (·.kind)

/-- Recognisers of keywords come before that of identifiers. -/
def KeywordsFirst (rs : List Recognizer) : Prop :=
  ∀ r ∈ rs, r.isKeyword → [r, identifierRecognizer].Sublist rs

/-- No recogniser accepts, or a single one does, or just that of a keyword and that of identifiers
do, in this order. -/
inductive Unambiguous : List Recognizer → Prop
  | none : Unambiguous []
  | single (r : Recognizer) : Unambiguous [r]
  | keyword (r : Recognizer) (h : r.isKeyword) : Unambiguous [r, identifierRecognizer]

section

variable {limits : Limits} {text : String} {rs : List Recognizer} {c : Char}

theorem isDigit_iff : c.isDigit ↔ IsDigit c := by
  simp only [Char.isDigit, Bool.and_eq_true, decide_eq_true_eq]
  exact Iff.rfl

theorem isLetter_iff : isLetter c ↔ IsLetter c := by
  have hupper : c.isUpper ↔ 'A' ≤ c ∧ c ≤ 'Z' := decide_eq_true_iff
  have hlower : c.isLower ↔ 'a' ≤ c ∧ c ≤ 'z' := by
    show (decide ('a' ≤ c) && decide (c ≤ 'z')) = true ↔ _
    rw [Bool.and_eq_true, decide_eq_true_iff, decide_eq_true_iff]
  have halpha : c.isAlpha ↔ c.isUpper ∨ c.isLower := by
    show (c.isUpper || c.isLower) = true ↔ _
    rw [Bool.or_eq_true]
  rw [isLetter, Bool.or_eq_true, halpha, hupper, hlower, beq_iff_eq, IsLetter, or_assoc]

theorem isLetterOrDigit_iff : isLetterOrDigit c ↔ IsLetter c ∨ IsDigit c := by
  rw [← isLetter_iff, ← isDigit_iff, isLetter, isLetterOrDigit, Char.isAlphanum]
  simp only [Bool.or_eq_true]
  exact or_right_comm

theorem utf8Size_eq_one (h : IsLetter c ∨ IsDigit c) : c.utf8Size = 1 := by
  have hle : c ≤ 'z' := by
    rcases h with (h | h | rfl) | h
    · exact Char.le_trans h.2 (by decide)
    · exact h.2
    · decide
    · exact Char.le_trans h.2 (by decide)
  exact if_pos (UInt32.le_trans (Char.le_def.mp hle) (by decide))

/-- A text of such characters has as many bytes as characters. -/
theorem utf8ByteSize_eq (h : ∀ c ∈ text.toList, IsLetter c ∨ IsDigit c) :
    text.utf8ByteSize = text.toList.length := by
  have hsize : text.utf8ByteSize = (text.toList.flatMap String.utf8EncodeChar).length := by
    rw [← List.size_toByteArray]
    show _ = text.toList.utf8Encode.size
    rw [← String.toByteArray_ofList, String.ofList_toList, String.size_toByteArray]
  have hone : text.toList.map (fun c => (String.utf8EncodeChar c).length) =
      text.toList.map fun _ => 1 :=
    List.map_congr_left fun c hc =>
      (String.length_utf8EncodeChar c).trans (utf8Size_eq_one (h c hc))
  rw [hsize, List.length_flatMap, hone, List.map_const', List.sum_replicate_nat, Nat.mul_one]

theorem accepts_identifier_iff :
    Pattern.identifier.accepts text ↔ Language.identifier.Contains text := by
  have hsize := @utf8ByteSize_eq text
  rw [Pattern.accepts, Language.Contains]
  cases hcs : text.toList with
  | nil => simp [isIdentifier]
  | cons first rest =>
    rw [hcs, List.forall_mem_cons] at hsize
    simp only [isIdentifier, Bool.and_eq_true, decide_eq_true_eq, List.all_eq_true, isLetter_iff,
      isLetterOrDigit_iff]
    constructor
    · rintro ⟨⟨hfirst, hlength⟩, hrest⟩
      refine ⟨first, rest, rfl, hfirst, hrest, ?_⟩
      rw [hsize ⟨Or.inl hfirst, hrest⟩]
      exact hlength
    · rintro ⟨first, rest, heq, hfirst, hrest, hlength⟩
      cases heq
      rw [hsize ⟨Or.inl hfirst, hrest⟩] at hlength
      exact ⟨⟨hfirst, hlength⟩, hrest⟩

theorem accepts_string_iff : Pattern.string.accepts text ↔ Language.string.Contains text := by
  constructor
  · intro h
    rw [Pattern.accepts] at h
    cases hcs : text.toList with
    | nil => simp [hcs, isString] at h
    | cons first rest =>
      simp only [hcs, isString, Bool.and_eq_true, beq_iff_eq, Bool.not_eq_true',
        List.contains_eq_mem, decide_eq_false_iff_not] at h
      obtain ⟨⟨rfl, hlast⟩, hcontent⟩ := h
      refine ⟨String.ofList rest.dropLast, ?_, by rwa [String.toList_ofList]⟩
      rw [← String.toList_inj, hcs]
      simp [List.dropLast_append_getLast? _ hlast]
  · rintro ⟨content, rfl, hcontent⟩
    simp [Pattern.accepts, isString, hcontent]

theorem accepts_integer_iff : Pattern.integer.accepts text ↔ Language.integer.Contains text := by
  rw [Pattern.accepts, isInteger, Language.Contains, Bool.and_eq_true, List.all_eq_true]
  simp only [isDigit_iff]
  simp

theorem patterns_eq : recognizers.map (·.pattern) =
    (keywords ++ operators).map .exact ++ [.identifier, .string, .integer] := rfl

/-- Recognisers accept what one of the languages contains. -/
theorem exists_accepts_iff : (∃ r ∈ recognizers, r.accepts text) ↔
    ∃ language : Language, language.Contains text := by
  have hpatterns : (∃ r ∈ recognizers, r.accepts text) ↔
      ∃ p ∈ recognizers.map (·.pattern), p.accepts text := by
    simp [Recognizer.accepts]
  rw [hpatterns, patterns_eq]
  constructor
  · rintro ⟨p, hp, haccepts⟩
    rcases List.mem_append.mp hp with hp | hp
    · obtain ⟨expected, hexpected, rfl⟩ := List.mem_map.mp hp
      obtain rfl := beq_iff_eq.mp haccepts
      rcases List.mem_append.mp hexpected with h | h
      · exact ⟨.keyword, h⟩
      · exact ⟨.operator, h⟩
    · simp only [List.mem_cons, List.not_mem_nil, or_false] at hp
      rcases hp with rfl | rfl | rfl
      · exact ⟨.identifier, accepts_identifier_iff.mp haccepts⟩
      · exact ⟨.string, accepts_string_iff.mp haccepts⟩
      · exact ⟨.integer, accepts_integer_iff.mp haccepts⟩
  · have hexact (h : text ∈ keywords ++ operators) :
        ∃ p ∈ (keywords ++ operators).map Pattern.exact ++ [.identifier, .string, .integer],
          p.accepts text :=
      ⟨.exact text, List.mem_append_left _ (List.mem_map_of_mem h), beq_iff_eq.mpr rfl⟩
    rintro ⟨language, h⟩
    cases language with
    | keyword => exact hexact (List.mem_append_left _ h)
    | operator => exact hexact (List.mem_append_right _ h)
    | identifier => exact ⟨.identifier, by simp, accepts_identifier_iff.mpr h⟩
    | string => exact ⟨.string, by simp, accepts_string_iff.mpr h⟩
    | integer => exact ⟨.integer, by simp, accepts_integer_iff.mpr h⟩

theorem ofText?_eq_none_iff :
    Kind.ofText? text = none ↔ ∀ language : Language, ¬ language.Contains text := by
  rw [Kind.ofText?, Option.map_eq_none_iff, List.find?_eq_none, ← not_exists, ← exists_accepts_iff]
  simp

/-- The recognisers of texts that are not fixed. -/
def openRecognizers : List Recognizer :=
  [identifierRecognizer, ⟨.string, .string⟩, ⟨.integer, .integer⟩]

theorem filter_fixed : ∀ r ∈ recognizers.take 27,
    (recognizers.take 27).filter (fun q => r.kind.text == q.kind.text) = [r] := by
  decide

/-- The text of a fixed kind is accepted by its own recogniser, and perhaps by open ones. -/
theorem filter_accepts_text {r : Recognizer} (hr : r ∈ recognizers.take 27) :
    recognizers.filter (·.accepts r.kind.text) =
      r :: openRecognizers.filter (·.accepts r.kind.text) := by
  have hown : (recognizers.take 27).filter (·.accepts r.kind.text) = [r] := by
    rw [← filter_fixed r hr]
    exact List.filter_congr fun q hq => accepts_of_fixed hq
  rw [show recognizers = recognizers.take 27 ++ openRecognizers from rfl, List.filter_append, hown,
    List.singleton_append]

/-- Of the open recognisers only that of identifiers accepts such a text. -/
theorem filter_open_text {r : Recognizer} (hr : r ∈ recognizers.take 27) :
    openRecognizers.filter (·.accepts r.kind.text) =
      if identifierRecognizer.accepts r.kind.text then [identifierRecognizer] else [] := by
  have hothers : ∀ r ∈ recognizers.take 27,
      isString r.kind.text.toList = false ∧ isInteger r.kind.text.toList = false := by
    decide
  obtain ⟨hstring, hinteger⟩ := hothers r hr
  simp [openRecognizers, List.filter_cons, Recognizer.accepts, Pattern.accepts, hstring, hinteger]

/-- No keyword is longer than an identifier may be. -/
def KeywordsFit [Limits] : Prop := ∀ text ∈ keywords, text.length ≤ Limits.maxIdentifierLength

/-- Keywords look like identifiers, and nothing else that is fixed does. -/
theorem isKeyword_of_accepts {r : Recognizer} (hr : r ∈ recognizers.take 27)
    (h : identifierRecognizer.accepts r.kind.text) : r.isKeyword := by
  have hletter : ∀ r ∈ recognizers.take 27, r.kind.text.toList.head?.any isLetter →
      r.isKeyword := by
    decide
  refine hletter r hr ?_
  simp only [identifierRecognizer, Recognizer.accepts, Pattern.accepts] at h
  cases hcs : r.kind.text.toList with
  | nil => simp [hcs, isIdentifier] at h
  | cons first rest =>
    simp only [hcs, isIdentifier, Bool.and_eq_true] at h
    exact h.1.1

theorem accepts_of_isKeyword {r : Recognizer} (hfit : KeywordsFit)
    (hr : r ∈ recognizers.take 27) (h : r.isKeyword) :
    identifierRecognizer.accepts r.kind.text := by
  have hword : ∀ r ∈ recognizers.take 27, r.isKeyword → r.kind.text ∈ keywords ∧
      r.kind.text.toList.head?.any isLetter ∧ r.kind.text.toList.tail.all isLetterOrDigit := by
    decide
  obtain ⟨hmem, hfirst, hrest⟩ := hword r hr h
  have hlength := hfit _ hmem
  simp only [identifierRecognizer, Recognizer.accepts, Pattern.accepts]
  rw [← String.length_toList] at hlength
  cases hcs : r.kind.text.toList with
  | nil => simp [hcs] at hfirst
  | cons first rest =>
    rw [hcs] at hfirst hrest hlength
    have hbound : rest.length < Limits.maxIdentifierLength := hlength
    simp only [isIdentifier, Bool.and_eq_true, decide_eq_true_eq]
    exact ⟨⟨hfirst, hbound⟩, hrest⟩

theorem unambiguous_singleton {r : Recognizer} {p : Recognizer → Bool} :
    Unambiguous ([r].filter p) := by
  cases h : p r with
  | false => simpa [h] using .none
  | true => simpa [h] using .single r

/-- Identifiers, strings and integers are told apart by their first characters. -/
theorem unambiguous_open : Unambiguous (openRecognizers.filter (·.accepts text)) := by
  rw [openRecognizers]
  cases hcs : text.toList with
  | nil =>
    simpa [identifierRecognizer, Recognizer.accepts, Pattern.accepts, hcs, isIdentifier, isString,
      isInteger] using .none
  | cons c rest =>
    have hidentifier (hc : ¬ isLetter c) : identifierRecognizer.accepts text = false := by
      simp [identifierRecognizer, Recognizer.accepts, Pattern.accepts, hcs, isIdentifier, hc]
    have hstring (hc : c ≠ '\'') : Recognizer.accepts ⟨.string, .string⟩ text = false := by
      simp [Recognizer.accepts, Pattern.accepts, hcs, isString, hc]
    have hinteger (hc : ¬ c.isDigit) : Recognizer.accepts ⟨.integer, .integer⟩ text = false := by
      simp [Recognizer.accepts, Pattern.accepts, hcs, isInteger, hc]
    by_cases hletter : isLetter c
    · have hquote : c ≠ '\'' := by
        rintro rfl
        cases hletter
      have hdigit : ¬ c.isDigit := fun hdigit => by simp [isLetter_of_isDigit hdigit] at hletter
      simpa [List.filter_cons, hstring hquote, hinteger hdigit] using
        unambiguous_singleton (r := identifierRecognizer) (p := (·.accepts text))
    · by_cases hquote : c = '\''
      · have hdigit : ¬ c.isDigit := by
          subst hquote
          decide
        simpa [List.filter_cons, hidentifier hletter, hinteger hdigit] using
          unambiguous_singleton (r := ⟨.string, .string⟩) (p := (·.accepts text))
      · simpa [List.filter_cons, hidentifier hletter, hstring hquote] using
          unambiguous_singleton (r := ⟨.integer, .integer⟩) (p := (·.accepts text))

/-- At most one recogniser accepts a text, but for keywords. -/
theorem unambiguous (text : String) : Unambiguous (recognizers.filter (·.accepts text)) := by
  have hsplit : recognizers = recognizers.take 27 ++ openRecognizers := rfl
  by_cases hfixed : ∃ r ∈ recognizers.take 27, r.accepts text
  · obtain ⟨r, hr, haccepts⟩ := hfixed
    rw [accepts_of_fixed hr, beq_iff_eq] at haccepts
    rw [haccepts, filter_accepts_text hr, filter_open_text hr]
    split
    · next h => exact .keyword r (isKeyword_of_accepts hr h)
    · exact .single r
  · have hnone : (recognizers.take 27).filter (·.accepts text) = [] :=
      List.filter_eq_nil_iff.mpr fun r hr haccepts => hfixed ⟨r, hr, haccepts⟩
    rw [hsplit, List.filter_append, hnone, List.nil_append]
    exact unambiguous_open

/-- The first recogniser is the same in every order that has keywords first. -/
theorem firstKind?_of_perm (hp : rs.Perm recognizers) (hk : KeywordsFirst rs) :
    firstKind? rs text = Kind.ofText? text := by
  have hfilter : rs.filter (·.accepts text) = recognizers.filter (·.accepts text) := by
    have hperm := hp.filter (·.accepts text)
    have hall : Unambiguous (recognizers.filter (·.accepts text)) := unambiguous text
    generalize recognizers.filter (·.accepts text) = xs at hall hperm
    cases hall with
    | none => exact hperm.eq_nil
    | single r => exact List.perm_singleton.mp hperm
    | keyword r h =>
      have hmem {x : Recognizer} (hx : x ∈ [r, identifierRecognizer]) : x ∈ rs ∧ x.accepts text :=
        List.mem_filter.mp (hperm.mem_iff.mpr hx)
      have hr := hmem (x := r) (by simp)
      have hsublist := (hk r hr.1 h).filter (·.accepts text)
      have hboth : [r, identifierRecognizer].filter (·.accepts text) = [r, identifierRecognizer] :=
        List.filter_eq_self.mpr fun x hx => (hmem hx).2
      rw [hboth] at hsublist
      exact (hsublist.eq_of_length hperm.length_eq.symm).symm
  rw [firstKind?, Kind.ofText?, ← List.head?_filter, ← List.head?_filter, hfilter]

/-- An order that finds the same kinds has keywords first. -/
theorem keywordsFirst_of_perm (hfit : KeywordsFit) (hp : rs.Perm recognizers)
    (h : ∀ text, firstKind? rs text = Kind.ofText? text) : KeywordsFirst rs := by
  have hkeywords : ∀ r ∈ recognizers, r.isKeyword →
      r ∈ recognizers.take 27 ∧ r.kind ≠ .identifier := by
    decide
  intro r hr hkeyword
  -- The text of the keyword itself tells which of its two recognisers comes first.
  obtain ⟨hfixed, hkind⟩ := hkeywords r (hp.mem_iff.mp hr) hkeyword
  have hboth : recognizers.filter (·.accepts r.kind.text) = [r, identifierRecognizer] := by
    rw [filter_accepts_text hfixed, filter_open_text hfixed,
      if_pos (accepts_of_isKeyword hfit hfixed hkeyword)]
  have hfirst := h r.kind.text
  have hperm := hp.filter (·.accepts r.kind.text)
  rw [firstKind?, Kind.ofText?, ← List.head?_filter, ← List.head?_filter, hboth] at hfirst
  rw [hboth] at hperm
  have hsublist : (rs.filter (·.accepts r.kind.text)).Sublist rs := List.filter_sublist
  generalize rs.filter (·.accepts r.kind.text) = xs at hfirst hperm hsublist
  cases xs with
  | nil => cases hfirst
  | cons x xs =>
    have hx : x ∈ [r, identifierRecognizer] := hperm.mem_iff.mp List.mem_cons_self
    simp only [List.mem_cons, List.not_mem_nil, or_false] at hx
    rcases hx with rfl | rfl
    · rw [List.perm_cons, List.perm_singleton] at hperm
      rwa [hperm] at hsublist
    · exact (hkind (Option.some.inj hfirst).symm).elim

/-- A text is accepted by no recogniser, by a single one, or by just that of a keyword and that of
identifiers. So a reordering that leaves keywords in front of identifiers finds the same kinds, and
no other one does if identifiers may be as long as keywords. What no recogniser accepts is in none
of the languages. -/
theorem recognizers_unambiguous (limits : Limits) :
    (∀ text, Unambiguous (recognizers.filter (·.accepts text))) ∧
      (∀ rs : List Recognizer, rs.Perm recognizers → KeywordsFirst rs →
        ∀ text, firstKind? rs text = Kind.ofText? text) ∧
      (∀ rs : List Recognizer, KeywordsFit → rs.Perm recognizers →
        (∀ text, firstKind? rs text = Kind.ofText? text) → KeywordsFirst rs) ∧
      ∀ text, Kind.ofText? text = none ↔ ∀ language : Language, ¬ language.Contains text :=
  ⟨unambiguous, fun _ hp hk _ => firstKind?_of_perm hp hk,
    fun _ hfit hp h => keywordsFirst_of_perm hfit hp h, fun _ => ofText?_eq_none_iff⟩

end

/-- The recognisers from the last one to the first, but for that of identifiers. -/
def reversedRecognizers : List Recognizer :=
  (recognizers.erase identifierRecognizer).reverse ++ [identifierRecognizer]

attribute [local instance] Limits.development

theorem recognizers_reversed :
    reversedRecognizers.Perm recognizers ∧ KeywordsFirst reversedRecognizers ∧ KeywordsFit ∧
      ∀ text, firstKind? reversedRecognizers text = Kind.ofText? text := by
  have hp : reversedRecognizers.Perm recognizers := by decide
  have hk : KeywordsFirst reversedRecognizers := by
    unfold KeywordsFirst
    decide
  have hfit : KeywordsFit := by
    unfold KeywordsFit
    decide
  have hsame := (recognizers_unambiguous .development).2.1 _ hp hk
  exact ⟨hp, (recognizers_unambiguous .development).2.2.1 _ hfit hp hsame, hfit, hsame⟩

end Ttm.Lexeme
