import Ttm.Proofs.Source.Splitting
import Ttm.Proofs.Source.Written

/-!
Reading a source by way of delimited text finds the tokens that the direct tokenizer finds.
-/
namespace Ttm.Source

open Munch

/-- Every quote outside comments is closed on its line, behind at most `maxString` bytes. -/
inductive QuotesClosed (maxString : Nat) : List UInt8 → Prop
  | nil : QuotesClosed maxString []
  | comment {rest : List UInt8} (h : QuotesClosed maxString (rest.dropWhile (· != Byte.newline))) :
      QuotesClosed maxString (Byte.slash :: Byte.slash :: rest)
  | literal {content rest : List UInt8} (hin : ∀ c ∈ content, c ≠ Byte.quote ∧ c ≠ Byte.newline)
      (hlen : content.length ≤ maxString) (h : QuotesClosed maxString rest) :
      QuotesClosed maxString (Byte.quote :: (content ++ Byte.quote :: rest))
  | other {b : UInt8} {rest : List UInt8} (hquote : b ≠ Byte.quote)
      (hcomment : ¬ (b = Byte.slash ∧ rest.head? = some Byte.slash))
      (h : QuotesClosed maxString rest) : QuotesClosed maxString (b :: rest)

theorem QuotesClosed.of_other {maxString : Nat} {b : UInt8} {rest : List UInt8}
    (h : QuotesClosed maxString (b :: rest)) (hquote : b ≠ Byte.quote)
    (hcomment : ¬ (b = Byte.slash ∧ rest.head? = some Byte.slash)) :
    QuotesClosed maxString rest := by
  cases h with
  | comment => exact (hcomment ⟨rfl, rfl⟩).elim
  | literal => exact (hquote rfl).elim
  | other _ _ h => exact h

theorem QuotesClosed.of_literal {maxString : Nat} {rest : List UInt8}
    (h : QuotesClosed maxString (Byte.quote :: rest)) :
    ∃ content behind, rest = content ++ Byte.quote :: behind ∧
      (∀ c ∈ content, c ≠ Byte.quote ∧ c ≠ Byte.newline) ∧ content.length ≤ maxString ∧
      QuotesClosed maxString behind := by
  generalize hsource : Byte.quote :: rest = source at h
  cases h with
  | nil => simp at hsource
  | comment => simp [Byte.quote, Byte.slash] at hsource
  | literal hin hlen h =>
    obtain ⟨-, rfl⟩ := List.cons.inj hsource
    exact ⟨_, _, rfl, hin, hlen, h⟩
  | other hquote => exact (hquote (List.cons.inj hsource).1.symm).elim

theorem QuotesClosed.of_dropWhile {maxString : Nat} {p : UInt8 → Bool} {rest : List UInt8}
    (h : QuotesClosed maxString rest) (hquote : p Byte.quote = false)
    (hslash : p Byte.slash = false) : QuotesClosed maxString (rest.dropWhile p) := by
  induction rest with
  | nil => exact h
  | cons b rest ih =>
    by_cases hb : p b
    · rw [List.dropWhile_cons_of_pos hb]
      refine ih (h.of_other ?_ ?_)
      · rintro rfl
        simp [hquote] at hb
      · rintro ⟨rfl, -⟩
        simp [hslash] at hb
    · rwa [List.dropWhile_cons_of_neg hb]

theorem QuotesClosed.of_comment {maxString : Nat} {rest : List UInt8}
    (h : QuotesClosed maxString (Byte.slash :: Byte.slash :: rest)) :
    QuotesClosed maxString (rest.dropWhile (· != Byte.newline)) := by
  cases h with
  | comment h => exact h
  | other _ hcomment => exact (hcomment ⟨rfl, rfl⟩).elim

theorem QuotesClosed.of_literal? {maxString : Nat} {rest content behind : List UInt8}
    (h : QuotesClosed maxString (Byte.quote :: rest))
    (hl : literal? maxString rest = some (content, behind)) : QuotesClosed maxString behind := by
  obtain ⟨content', behind', hrest, hin', -, h⟩ := h.of_literal
  obtain ⟨rfl, hin, -⟩ := literal?_eq_some hl
  have hdrop {xs ys : List UInt8} (hxs : ∀ c ∈ xs, c != Byte.quote) :
      (xs ++ Byte.quote :: ys).dropWhile (· != Byte.quote) = Byte.quote :: ys := by
    rw [List.dropWhile_append_of_pos hxs]
    rfl
  have heq := congrArg (List.dropWhile (· != Byte.quote)) hrest
  rw [hdrop (fun c hc => ?_), hdrop (fun c hc => ?_)] at heq
  · rwa [(List.cons.inj heq).2]
  · simpa using (hin' c hc).1
  · have hc := hin c hc
    simp only [inQuotes, Bool.and_eq_true] at hc
    exact hc.1.1

namespace Delimited

variable {maxString line : Nat} {b : UInt8} {source behind rest written segment : List UInt8}
  {d d' : Draft} {tokens : Option (List Token)}

/-- What stands written is complete: the next byte read does not join it. -/
def Complete (written rest : List UInt8) : Prop :=
  ∀ last ∈ written.head?, ∀ b ∈ rest.head?,
    (Byte.isWord last → inWord b = false) ∧ (Byte.joinsEquals last → inComparison b = false)

/-- Reading `source` goes through, adds `tokens` to those written before, and closes the quotes
it opens; without tokens it ends at a byte that is not allowed. -/
def Finds (maxString : Nat) (source : List UInt8) (d : Draft) : Option (List Token) → Prop
  | some tokens => ∃ mode d', read .standard maxString .plain source d = (.ok mode, d') ∧
      (∀ n, mode ≠ .quoted n) ∧
      (Token.ofWritten d'.written).1 = tokens.reverse ++ (Token.ofWritten d.written).1 ∧
      d'.written.count Byte.quote % 2 = d.written.count Byte.quote % 2
  | none => ∃ e d', read .standard maxString .plain source d = (.error e, d')

theorem finds_nil : Finds maxString [] d (some []) :=
  ⟨.plain, d, rfl, by simp, rfl, rfl⟩

/-- Bytes that write no token change nothing about what is found. -/
theorem finds_of_skip
    (hread : read .standard maxString .plain source d = read .standard maxString .plain behind d')
    (hfound : (Token.ofWritten d'.written).1 = (Token.ofWritten d.written).1)
    (hquotes : d'.written.count Byte.quote = d.written.count Byte.quote)
    (h : Finds maxString behind d' tokens) : Finds maxString source d tokens := by
  cases tokens with
  | none =>
    obtain ⟨e, d'', he⟩ := h
    exact ⟨e, d'', hread.trans he⟩
  | some tokens =>
    obtain ⟨mode, d'', he, hmode, htokens, hcount⟩ := h
    exact ⟨mode, d'', hread.trans he, hmode, by rw [htokens, hfound], by rw [hcount, hquotes]⟩

/-- A segment written by itself is the next token found. -/
theorem finds_of_segment
    (hread : read .standard maxString .plain source d = read .standard maxString .plain behind d')
    (hwritten : closed d'.written = closed (segment.reverse ++ closed d.written))
    (hdelimiter : Byte.delimiter ∉ segment) (hmark : Token.isLineMark segment = false)
    (hquotes : segment.count Byte.quote % 2 = 0)
    (hline : (Token.ofWritten d.written).2 = line)
    (h : (Token.ofWritten d'.written).2 = line → Finds maxString behind d' tokens) :
    Finds maxString source d (tokens.map (⟨Token.textOfBytes segment, line⟩ :: ·)) := by
  have hof : Token.ofWritten d'.written =
      (⟨Token.textOfBytes segment, line⟩ :: (Token.ofWritten d.written).1, line) := by
    rw [← ofWritten_closed, hwritten, ofWritten_closed,
      Token.ofWritten_append closed_closed hdelimiter,
      Token.collect_of_not_lineMark hmark, ofWritten_closed, hline]
  cases tokens with
  | none =>
    obtain ⟨e, d'', he⟩ := h (by rw [hof])
    exact ⟨e, d'', hread.trans he⟩
  | some tokens =>
    obtain ⟨mode, d'', he, hmode, htokens, hcount⟩ := h (by rw [hof])
    refine ⟨mode, d'', hread.trans he, hmode, ?_, ?_⟩
    · rw [htokens, hof, List.reverse_cons, List.append_assoc, List.singleton_append]
    · rw [hcount, ← count_closed, hwritten, count_closed, List.count_append, List.count_reverse,
        count_closed]
      omega

/-- Bytes of a class without marks and quotes make a token when they are written by themselves. -/
theorem finds_of_class {p : UInt8 → Bool} (hall : ∀ c ∈ segment, p c) (hne : segment ≠ [])
    (hdelimiter : p Byte.delimiter = false) (hnewline : p Byte.newline = false)
    (hquote : p Byte.quote = false)
    (hread : read .standard maxString .plain source d = read .standard maxString .plain behind d')
    (hwritten : closed d'.written = closed (segment.reverse ++ closed d.written))
    (hline : (Token.ofWritten d.written).2 = line)
    (h : (Token.ofWritten d'.written).2 = line → Finds maxString behind d' tokens) :
    Finds maxString source d (tokens.map (⟨Token.textOfBytes segment, line⟩ :: ·)) := by
  have hnot {c : UInt8} (hc : p c = false) : c ∉ segment := fun hmem => by simp [hall c hmem] at hc
  refine finds_of_segment hread hwritten (hnot hdelimiter) ?_ ?_ hline h
  · obtain ⟨b, hb⟩ := List.exists_mem_of_ne_nil segment hne
    rw [Token.isLineMark, List.all_eq_false]
    refine ⟨b, hb, fun heq => hnot hnewline ?_⟩
    rwa [← beq_iff_eq.mp heq]
  · rw [List.count_eq_zero_of_not_mem (hnot hquote)]

theorem complete_of_not_joining (h : ∀ last ∈ written.head?,
    Byte.isWord last = false ∧ Byte.joinsEquals last = false) : Complete written rest := by
  intro last hlast b _
  simp [h last hlast]

theorem complete_of_closed (h : Token.Closed written) : Complete written rest := by
  apply complete_of_not_joining
  intro last hlast
  rw [h last hlast]
  decide

/-- A run that is read to its end is complete. -/
theorem complete_dropWhile {p : UInt8 → Bool}
    (h : ∀ last ∈ written.head?, ∀ b, p b = false →
      (Byte.isWord last → inWord b = false) ∧ (Byte.joinsEquals last → inComparison b = false)) :
    Complete written (rest.dropWhile p) := by
  intro last hlast b hb
  have hp := List.head?_dropWhile_not p rest
  rw [Option.mem_def.mp hb] at hp
  exact h last hlast b hp

theorem complete_dropWhile_newline :
    Complete written (rest.dropWhile (· != Byte.newline)) := by
  apply complete_dropWhile
  intro last _ b hb
  have hline : b = Byte.newline := by simpa using hb
  subst hline
  exact ⟨fun _ => rfl, fun _ => rfl⟩

theorem finds_newline (hline : (Token.ofWritten d.written).2 = line)
    (h : ∀ d : Draft, Complete d.written rest → (Token.ofWritten d.written).2 = line + 1 →
      Finds maxString rest d tokens) :
    Finds maxString (Byte.newline :: rest) d tokens := by
  have hof : Token.ofWritten d.endLine.written =
      ((Token.ofWritten d.written).1, (Token.ofWritten d.written).2 + 1) := by
    rw [endLine_written, ofWritten_newline]
  refine finds_of_skip read_newline (by rw [hof]) ?_ (h _ ?_ (by rw [hof, hline]))
  · rw [endLine_written, List.count_cons_of_ne (by decide), count_closed]
  · apply complete_of_not_joining
    intro last hlast
    rw [endLine_written, List.head?_cons, Option.mem_some_iff] at hlast
    subst hlast
    decide

theorem finds_comment (h : ∀ d' : Draft, d'.written = d.written →
      Finds maxString (rest.dropWhile (· != Byte.newline)) d' tokens)
    (hnil : rest.dropWhile (· != Byte.newline) = [] → tokens = some []) :
    Finds maxString (Byte.slash :: Byte.slash :: rest) d tokens := by
  obtain ⟨mode, d', hwritten, hmode, hread⟩ :=
    @read_comment_run maxString rest d.advance.beginComment.advance.skip
  replace hwritten : d'.written = d.written := hwritten
  rcases hmode with rfl | ⟨rfl, hend⟩
  · exact finds_of_skip (read_comment.trans hread) (by rw [hwritten]) (by rw [hwritten])
      (h d' hwritten)
  · rw [hend] at hread
    rw [hnil hend]
    exact ⟨.comment, d', read_comment.trans hread, by simp, by rw [hwritten]; rfl, by rw [hwritten]⟩

theorem finds_blank (hb : isBlank b) (hc : Complete d.written (b :: rest))
    (h : ∀ d' : Draft, Complete d'.written rest →
      Token.ofWritten d'.written = Token.ofWritten d.written → Finds maxString rest d' tokens) :
    Finds maxString (b :: rest) d tokens := by
  by_cases hr : b = 0x0D
  · subst hr
    refine finds_of_skip read_return rfl rfl (h _ ?_ rfl)
    apply complete_of_not_joining
    intro last hlast
    have hlast := hc last hlast _ rfl
    simpa [inWord, inComparison] using hlast
  · have hb : b = 0x20 ∨ b = 0x09 := by simpa [isBlank, hr] using hb
    refine finds_of_skip (read_blank hb) ?_ ?_ (h _ ?_ ?_)
    all_goals rw [writeSubstitute_written, advance_written]
    · rw [ofWritten_closed]
    · rw [count_closed]
    · exact complete_of_closed closed_closed
    · rw [ofWritten_closed]

theorem joinsEquals_of_isWord (h : Byte.isWord b) : Byte.joinsEquals b = false := by
  have hne (c : UInt8) (hc : Byte.isWord c = false) : b ≠ c := ne_of_isWord h hc
  simp [Byte.joinsEquals, hne 0x3D rfl, hne 0x21 rfl, hne 0x3C rfl, hne 0x3E rfl]

theorem joinsEquals_ne (h : Byte.joinsEquals b) {c : UInt8} (hc : Byte.joinsEquals c = false) :
    b ≠ c := by
  rintro rfl
  simp [h] at hc

/-- The last byte of a class that was written by itself stands last. -/
theorem mem_of_head?_reverse {last first : UInt8} {run : List UInt8}
    (h : last ∈ ((first :: run).reverse ++ written).head?) : last ∈ first :: run := by
  rw [List.head?_append, List.head?_reverse, List.getLast?_cons] at h
  rw [Option.some_or, Option.mem_some_iff] at h
  exact List.mem_of_getLast? (by rw [List.getLast?_cons, h])

/-- A byte that is written by itself makes a token with the run of bytes that join it. -/
theorem finds_run {joins inClass : UInt8 → Bool} (hj : Joining maxString joins inClass)
    (hdelimiter : inClass Byte.delimiter = false) (hnewline : inClass Byte.newline = false)
    (hquote : inClass Byte.quote = false)
    (hends : ∀ last, inClass last → ∀ c, inRun joins c = false →
      (Byte.isWord last → inWord c = false) ∧ (Byte.joinsEquals last → inComparison c = false))
    (hb : inClass b) (hread : read .standard maxString .plain (b :: rest) d =
      read .standard maxString .plain rest d')
    (hd : d'.written = b :: closed d.written) (hline : (Token.ofWritten d.written).2 = line)
    (h : ∀ d' : Draft, Complete d'.written (rest.dropWhile (inRun joins)) →
      (Token.ofWritten d'.written).2 = line →
        Finds maxString (rest.dropWhile (inRun joins)) d' tokens) :
    Finds maxString (b :: rest) d
      (tokens.map
        (⟨Token.textOfBytes (b :: (rest.takeWhile (inRun joins)).filter joins), line⟩ :: ·)) := by
  obtain ⟨e, hwritten, hrun⟩ := @Joining.read_run maxString rest d' _ _ hj (by rw [hd]; exact hb)
  have hsegment : e.written =
      (b :: (rest.takeWhile (inRun joins)).filter joins).reverse ++ closed d.written := by
    rw [hwritten, hd, List.reverse_cons, List.append_assoc, List.singleton_append]
  have hall : ∀ c ∈ b :: (rest.takeWhile (inRun joins)).filter joins, inClass c := by
    rw [List.forall_mem_cons]
    exact ⟨hb, fun c hc => hj.inClass_of_joins (List.mem_filter.mp hc).2⟩
  refine finds_of_class hall (by simp) hdelimiter hnewline hquote (hread.trans hrun)
    (congrArg closed hsegment) hline (h e (complete_dropWhile fun last hlast => ?_))
  exact hends last (hall last (mem_of_head?_reverse (hsegment ▸ hlast)))

theorem finds_word (hb : Byte.isWord b) (hc : Complete d.written (b :: rest))
    (hline : (Token.ofWritten d.written).2 = line)
    (h : ∀ d' : Draft, Complete d'.written (rest.dropWhile inWord) →
      (Token.ofWritten d'.written).2 = line → Finds maxString (rest.dropWhile inWord) d' tokens) :
    Finds maxString (b :: rest) d
      (tokens.map
        (⟨Token.textOfBytes (b :: (rest.takeWhile inWord).filter Byte.isWord), line⟩ :: ·)) := by
  have hfirst : ¬ d.written.head?.any Byte.isWord := by
    rw [Option.any_eq_true_iff_get]
    rintro ⟨hsome, hword⟩
    have hin := (hc _ (Option.get_mem hsome) b rfl).1 hword
    simp [inWord, hb] at hin
  refine finds_run joining_word rfl rfl rfl (fun last hword c hend => ?_) hb (read_word hb) ?_
    hline h
  · exact ⟨fun _ => hend, fun hj => by simp [joinsEquals_of_isWord hword] at hj⟩
  · rw [writeText_written, advance_written, if_neg hfirst]

theorem finds_comparison (hb : Byte.joinsEquals b) (hc : Complete d.written (b :: rest))
    (hline : (Token.ofWritten d.written).2 = line)
    (h : ∀ d' : Draft, Complete d'.written (rest.dropWhile inComparison) →
      (Token.ofWritten d'.written).2 = line →
        Finds maxString (rest.dropWhile inComparison) d' tokens) :
    Finds maxString (b :: rest) d
      (tokens.map
        (⟨Token.textOfBytes (b :: (rest.takeWhile inComparison).filter (· == Byte.equals)), line⟩
          :: ·)) := by
  have hfirst : ¬ (b = Byte.equals ∧ d.written.head?.any Byte.joinsEquals) := by
    rw [Option.any_eq_true_iff_get]
    rintro ⟨rfl, hsome, hjoins⟩
    have hin := (hc _ (Option.get_mem hsome) _ rfl).2 hjoins
    simp [inComparison] at hin
  have hslash : ¬ (b = Byte.slash ∧ rest.head? = some Byte.slash) :=
    fun hs => joinsEquals_ne hb (c := Byte.slash) rfl hs.1
  refine finds_run joining_comparison rfl rfl rfl (fun last hjoins c hend => ?_) hb
    (read_operator (mem_operators_of_joinsEquals hb) hslash) ?_ hline h
  · exact ⟨fun hw => by simp [joinsEquals_of_isWord hw] at hjoins, fun _ => hend⟩
  · rw [writeOperator_written, advance_written, if_neg hfirst]

theorem finds_single (hb : isSingle b)
    (hcomment : ¬ (b = Byte.slash ∧ rest.head? = some Byte.slash))
    (hline : (Token.ofWritten d.written).2 = line)
    (h : ∀ d' : Draft, Complete d'.written rest → (Token.ofWritten d'.written).2 = line →
      Finds maxString rest d' tokens) :
    Finds maxString (b :: rest) d (tokens.map (⟨Token.textOfBytes [b], line⟩ :: ·)) := by
  by_cases hs : b = 0x3B
  · subst hs
    refine finds_of_class (p := isSingle) (by simpa using hb) (by simp) rfl rfl rfl read_separator
      ?_ hline (h _ ?_)
    · rw [writeSeparator_written, advance_written]
      rfl
    · rw [writeSeparator_written]
      exact complete_of_closed (by simp [Token.Closed])
  · have hoperator : b ∈ Byte.operators ∧ Byte.joinsEquals b = false := by
      simpa [isSingle, hs] using hb
    have hd : (d.advance.writeOperator b).written = b :: closed d.written := by
      rw [writeOperator_written, advance_written, if_neg]
      rintro ⟨rfl, -⟩
      exact absurd hoperator.2 (by decide)
    refine finds_of_class (p := isSingle) (by simpa using hb) (by simp) rfl rfl rfl
      (read_operator hoperator.1 hcomment) (by rw [hd]; rfl) hline (h _ ?_)
    apply complete_of_not_joining
    intro last hlast
    rw [hd, List.head?_cons, Option.mem_some_iff] at hlast
    subst hlast
    exact ⟨isWord_of_mem_operators hoperator.1, hoperator.2⟩

theorem finds_literal {content : List UInt8} (hl : literal? maxString rest = some (content, behind))
    (hline : (Token.ofWritten d.written).2 = line)
    (h : ∀ d' : Draft, Complete d'.written behind → (Token.ofWritten d'.written).2 = line →
      Finds maxString behind d' tokens) :
    Finds maxString (Byte.quote :: rest) d
      (tokens.map (⟨Token.textOfBytes (Byte.quote :: content ++ [Byte.quote]), line⟩ :: ·)) := by
  obtain ⟨rfl, hin, hlen⟩ := literal?_eq_some hl
  obtain ⟨d', hwritten, hread⟩ := @read_quoted_run maxString 0 (Byte.quote :: behind) content
    (d.advance.delimit.write Byte.quote) hin (by omega)
  have hnot {c : UInt8} (hc : inQuotes c = false) : c ∉ content := fun hmem => by
    simp [hin c hmem] at hc
  refine finds_of_segment ((read_quote.trans hread).trans read_closing_quote) ?_ ?_ ?_ ?_ hline
    (h _ ?_)
  · simp [hwritten, delimit_written]
  · have hcontent : Byte.delimiter ∉ content := hnot rfl
    have hne : Byte.delimiter ≠ Byte.quote := by decide
    simp [hcontent, hne]
  · rfl
  · rw [List.count_append, List.count_cons_self, List.count_eq_zero_of_not_mem (hnot rfl)]
    rfl
  · apply complete_of_not_joining
    intro last hlast
    rw [endString_written, write_written, List.head?_cons, Option.mem_some_iff] at hlast
    subst hlast
    decide

/-- A quote that is closed and yet no literal has a delimiter in its content. -/
theorem finds_of_literal?_eq_none (hl : literal? maxString rest = none)
    (hq : QuotesClosed maxString (Byte.quote :: rest)) :
    Finds maxString (Byte.quote :: rest) d none := by
  obtain ⟨content, behind, rfl, hin, hlen, -⟩ := hq.of_literal
  have hsplit : content = content.takeWhile inQuotes ++ content.dropWhile inQuotes :=
    List.takeWhile_append_dropWhile.symm
  cases hdrop : content.dropWhile inQuotes with
  | nil =>
    have hall : ∀ c ∈ content, inQuotes c := List.dropWhile_eq_nil_iff.mp hdrop
    have hquote : ¬ inQuotes Byte.quote := by decide
    simp [literal?, List.dropWhile_append_of_pos hall, List.takeWhile_append_of_pos hall, hquote,
      hlen] at hl
  | cons b tail =>
    have hb : b = Byte.delimiter := by
      have hmem : b ∈ content := by
        rw [hsplit, hdrop]
        simp
      have hnot := List.head?_dropWhile_not inQuotes content
      rw [hdrop, List.head?_cons] at hnot
      simpa [inQuotes, hin b hmem] using hnot
    subst hb
    rw [hdrop] at hsplit
    have hle := congrArg List.length hsplit
    rw [List.length_append] at hle
    obtain ⟨d', -, hread⟩ := @read_quoted_run maxString 0
      (Byte.delimiter :: (tail ++ Byte.quote :: behind)) (content.takeWhile inQuotes)
      (d.advance.delimit.write Byte.quote) (fun c hc => List.mem_takeWhile_imp hc) (by omega)
    obtain ⟨e, d'', he⟩ := @read_quoted_delimiter maxString _ _ d'
    refine ⟨e, d'', ?_⟩
    rw [hsplit, List.append_assoc, List.cons_append, read_quote, hread, he]

theorem finds_munch (hq : munch maxString line source = none → QuotesClosed maxString source)
    (hc : Complete d.written source) (hline : (Token.ofWritten d.written).2 = line) :
    Finds maxString source d (munch maxString line source) := by
  fun_induction munch maxString line source generalizing d with
  | case1 => exact finds_nil
  | case2 line rest ih =>
    refine finds_newline hline fun d => ih fun hm => ?_
    exact (hq hm).of_other (by decide) (fun h => absurd h.1 (by decide))
  | case3 line b rest hnl hcomment ih =>
    obtain ⟨rfl, hrest⟩ := hcomment
    obtain ⟨tail, rfl⟩ := List.head?_eq_some_iff.mp hrest
    have hdrop : (Byte.slash :: tail).dropWhile (· != Byte.newline) =
        tail.dropWhile (· != Byte.newline) := rfl
    rw [hdrop] at ih hq ⊢
    refine finds_comment (fun d' hwritten => ?_) fun hend => ?_
    · exact ih (fun hm => (hq hm).of_comment) complete_dropWhile_newline (by rw [hwritten, hline])
    · rw [hend, munch]
  | case4 line b rest hnl hcomment hblank ih =>
    refine finds_blank hblank hc fun d' hc' hof => ih (fun hm => ?_) hc' (by rw [hof, hline])
    exact (hq hm).of_other (by rintro rfl; simp [isBlank, Byte.quote] at hblank) hcomment
  | case5 line b rest hnl hcomment hblank hword ih =>
    refine finds_word hword hc hline fun d' => ih fun hm => ?_
    have hrest := (hq (Option.map_eq_none_iff.mpr hm)).of_other (ne_of_isWord hword rfl) hcomment
    exact hrest.of_dropWhile rfl rfl
  | case6 line b rest hnl hcomment hblank hword hjoins ih =>
    refine finds_comparison hjoins hc hline fun d' => ih fun hm => ?_
    have hrest := (hq (Option.map_eq_none_iff.mpr hm)).of_other (joinsEquals_ne hjoins rfl) hcomment
    exact hrest.of_dropWhile rfl rfl
  | case7 line b rest hnl hcomment hblank hword hjoins hsingle ih =>
    refine finds_single hsingle hcomment hline fun d' => ih fun hm => ?_
    refine (hq (Option.map_eq_none_iff.mpr hm)).of_other ?_ hcomment
    rintro rfl
    exact absurd hsingle (by decide)
  | case8 line rest hl => exact finds_of_literal?_eq_none hl (hq rfl)
  | case9 line rest content behind hl hnl hcomment hblank hword hjoins hsingle ih =>
    refine finds_literal hl hline fun d' => ih fun hm => ?_
    exact (hq (Option.map_eq_none_iff.mpr hm)).of_literal? hl
  | case10 line b rest hnl hcomment hblank hword hjoins hsingle hquote =>
    have hclass : ByteTable.standard.classOf b = .forbidden := by
      simp_all [standard_classOf, isBlank, isSingle]
    exact read_forbidden hclass hnl hcomment

theorem quoteCount_standard (text : List UInt8) :
    quoteCount .standard text = text.count Byte.quote := by
  have hquote : ByteTable.standard.isQuote = (· == Byte.quote) := funext fun _ => standard_isQuote
  rw [quoteCount, hquote, List.count]

theorem ofSource_of_munch {found : List Token} (hm : munch maxString 1 source = some found) :
    ∃ text metrics, ofSource .standard maxString source = (.ok text, metrics) ∧
      Token.ofDelimited text = found := by
  have hfinds : Finds maxString source {} (munch maxString 1 source) :=
    finds_munch (by simp [hm]) (by simp [Complete]) rfl
  rw [hm] at hfinds
  obtain ⟨mode, d, hread, hmode, htokens, hquotes⟩ := hfinds
  have hfinish : finish mode d = d := by
    cases mode with
    | quoted n => exact (hmode n rfl).elim
    | plain | comment => rfl
  refine ⟨d.written.reverse, d.metrics source.length, ?_, ?_⟩
  · rw [ofSource_eq, hread]
    simp [hfinish, quoteCount_standard, hquotes]
  · rw [Token.ofDelimited_reverse, htokens]
    simp [Token.ofWritten, Token.segments, Token.collect, Token.isLineMark]

theorem ofSource_of_munch_eq_none (hq : QuotesClosed maxString source)
    (hm : munch maxString 1 source = none) :
    ∃ e metrics, ofSource .standard maxString source = (.error e, metrics) := by
  have hfinds : Finds maxString source {} (munch maxString 1 source) :=
    finds_munch (fun _ => hq) (by simp [Complete]) rfl
  rw [hm] at hfinds
  obtain ⟨e, d, hread⟩ := hfinds
  exact ⟨e, d.metricsSoFar source.length, by rw [ofSource_eq, hread]⟩

end Delimited

variable {limits : Limits} {settings : LexicalSettings} {source text : List UInt8}
  {metrics : Metrics} {t : Tokens} {e : Error}

theorem read_of_error
    (h : Delimited.ofSource .standard limits.maxStringLength source = (.error e, metrics)) :
    (read limits settings source).result = .error e := by
  obtain ⟨hresult, -⟩ := Prod.mk.inj h
  simp only [read, hresult]

theorem read_of_ok
    (h : Delimited.ofSource .standard limits.maxStringLength source = (.ok text, metrics)) :
    (read limits settings source).result =
      (Token.split settings.traceTokens limits.maxTokenCount text).result.map (⟨·, metrics⟩) := by
  obtain ⟨hresult, rfl⟩ := Prod.mk.inj h
  simp only [read, hresult]
  cases (Token.split settings.traceTokens limits.maxTokenCount text).result <;> rfl

theorem tokenize_eq_ok_iff
    (h : Delimited.ofSource .standard limits.maxStringLength source = (.ok text, metrics)) :
    tokenize limits source = .ok t ↔
      ⟨Token.ofDelimited text, metrics⟩ = t ∧
        (Token.ofDelimited text).length ≤ limits.maxTokenCount := by
  rw [tokenize, read_of_ok h]
  rcases Token.length_le_or_excess limits.maxTokenCount (Token.ofDelimited text) with
    hle | ⟨before, token, behind, hexcess, hbefore⟩
  · simp [Token.split_of_length_le hle, Except.map, hle]
  · have hlen : ¬ (Token.ofDelimited text).length ≤ limits.maxTokenCount := by
      rw [hexcess, List.length_append, List.length_cons]
      omega
    simp [Token.split_of_excess hexcess hbefore, Except.map, hlen]

/-- A source in which the direct tokenizer finds tokens is accepted with these tokens. -/
theorem tokenize_of_munch {tokens : List Token}
    (hm : munch limits.maxStringLength 1 source = some tokens)
    (hlen : tokens.length ≤ limits.maxTokenCount) :
    ∃ metrics, tokenize limits source = .ok ⟨tokens, metrics⟩ := by
  obtain ⟨text, metrics, htext, rfl⟩ := Delimited.ofSource_of_munch hm
  exact ⟨metrics, (tokenize_eq_ok_iff htext).mpr ⟨rfl, hlen⟩⟩

/-- What is found in a source with closed quotes is what the direct tokenizer finds. -/
theorem munch_of_tokenize (hq : QuotesClosed limits.maxStringLength source)
    (h : tokenize limits source = .ok t) :
    munch limits.maxStringLength 1 source = some t.tokens ∧
      t.tokens.length ≤ limits.maxTokenCount := by
  cases hm : munch limits.maxStringLength 1 source with
  | none =>
    obtain ⟨e, metrics, he⟩ := Delimited.ofSource_of_munch_eq_none hq hm
    cases (read_of_error he).symm.trans h
  | some found =>
    obtain ⟨text, metrics, htext, rfl⟩ := Delimited.ofSource_of_munch hm
    obtain ⟨rfl, hlen⟩ := (tokenize_eq_ok_iff htext).mp h
    exact ⟨rfl, hlen⟩

/-- Delimiting and splitting a source finds just the tokens of the direct tokenizer, where quotes
are closed: they accept the same sources, up to the number of tokens, and agree on texts and
lines. -/
theorem tokenize_iff_munch (limits : Limits) (source : List UInt8)
    (hq : QuotesClosed limits.maxStringLength source) (tokens : List Token) :
    (∃ metrics, tokenize limits source = .ok ⟨tokens, metrics⟩) ↔
      munch limits.maxStringLength 1 source = some tokens ∧
        tokens.length ≤ limits.maxTokenCount := by
  constructor
  · rintro ⟨metrics, h⟩
    exact munch_of_tokenize hq h
  · rintro ⟨hm, hlen⟩
    exact tokenize_of_munch hm hlen

/-- The name `x1` and `<=`, both cut by a carriage return, a string and a comment; `/;` below. -/
def crossedSource : List UInt8 :=
  [0x78, 0x0D, 0x31, 0x3C, 0x0D, 0x3D, 0x27, 0x61, 0x20, 0x62, 0x27, 0x2F, 0x2F, 0x63, 0x0A, 0x2F,
    0x3B]

theorem quotesClosed_crossedSource :
    QuotesClosed Limits.development.maxStringLength crossedSource := by
  iterate 6 refine .other (by decide) (by decide) ?_
  refine @QuotesClosed.literal _ [0x61, 0x20, 0x62] _ (by simp [Byte.quote, Byte.newline])
    (by decide) (.comment ?_)
  iterate 3 refine .other (by decide) (by decide) ?_
  exact .nil

theorem tokenize_crossedSource :
    QuotesClosed Limits.development.maxStringLength crossedSource ∧
      ∃ metrics, tokenize .development crossedSource =
        .ok ⟨[⟨"x1", 1⟩, ⟨"<=", 1⟩, ⟨"'a b'", 1⟩, ⟨"/", 2⟩, ⟨";", 2⟩], metrics⟩ :=
  ⟨quotesClosed_crossedSource,
    (tokenize_iff_munch .development crossedSource quotesClosed_crossedSource _).mpr
      ⟨by decide +kernel, by decide⟩⟩

end Ttm.Source
