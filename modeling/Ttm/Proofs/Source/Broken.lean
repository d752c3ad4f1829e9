import Ttm.Proofs.Lexeme.Word
import Ttm.Proofs.Source.Tokenize

/-!
A quote that is not closed where it should be leaves a segment that begins with it and holds no
other quote. Such a segment stays, whatever is read behind it, and is no lexeme.
-/
namespace Ttm.Source

open Lexeme (Kind)

namespace Delimited

/-- The segment written last begins with a quote and holds no other one. -/
def Open (written : List UInt8) : Prop :=
  ∃ content before, written = content ++ Byte.quote :: before ∧ Byte.quote ∉ content ∧
    Byte.delimiter ∉ content ∧ Token.Closed before

/-- A segment begins with a quote and holds no other one. -/
def Broken (written : List UInt8) : Prop :=
  ∃ behind before, written = behind ++ before ∧ Open before ∧
    (behind = [] ∨ behind.getLast? = some Byte.delimiter)

/-- What a byte outside comments and quotes does to the bytes written. -/
inductive Writes (b : UInt8) (next : Option UInt8) (written : List UInt8) :
    Mode → List UInt8 → Prop
  | comment (hb : b = Byte.slash) (hnext : next = some Byte.slash) :
    Writes b next written .comment written
  | quote (hb : b = Byte.quote) :
    Writes b next written (.quoted 0) (Byte.quote :: closed written)
  | nothing (hquote : b ≠ Byte.quote) (hcomment : ¬ (b = Byte.slash ∧ next = some Byte.slash)) :
    Writes b next written .plain written
  | joined (hquote : b ≠ Byte.quote) (hcomment : ¬ (b = Byte.slash ∧ next = some Byte.slash)) :
    Writes b next written .plain (b :: written)
  | apart (more : List UInt8) (hquote : b ≠ Byte.quote)
      (hcomment : ¬ (b = Byte.slash ∧ next = some Byte.slash)) :
    Writes b next written .plain (more ++ closed written)

/-- A broken segment stands written, in front of the literal that is being read. -/
def Spoiled : Mode → List UInt8 → Prop
  | .plain, written | .comment, written => Broken written
  | .quoted _, written =>
    ∃ content before, written = content ++ before ∧ Token.Closed before ∧ Broken before

/-- The literal that is being read is the segment written last. -/
def Began (maxString : Nat) : Mode → List UInt8 → Prop
  | .plain, _ | .comment, _ => True
  | .quoted held, written => held ≤ maxString ∧ Open written

/-- The quotes ahead are closed, that of the literal being read among them. -/
def Ahead (maxString : Nat) : Mode → List UInt8 → Prop
  | .plain, source => QuotesClosed maxString source
  | .comment, source => QuotesClosed maxString (source.dropWhile (· != Byte.newline))
  | .quoted held, source => ∃ content behind, source = content ++ Byte.quote :: behind ∧
    (∀ c ∈ content, c ≠ Byte.quote ∧ c ≠ Byte.newline) ∧ held + content.length ≤ maxString ∧
    QuotesClosed maxString behind

variable {limits : Limits} {maxString held : Nat} {b : UInt8} {next : Option UInt8}
  {mode mode' : Mode} {source written written' more text : List UInt8} {d d' : Draft}
  {metrics : Metrics}

theorem Open.broken (h : Open written) : Broken written := ⟨[], written, rfl, h, Or.inl rfl⟩

theorem open_quote : Open (Byte.quote :: closed written) :=
  ⟨[], closed written, rfl, List.not_mem_nil, List.not_mem_nil, closed_closed⟩

theorem Open.join (h : Open written) (hquote : b ≠ Byte.quote) (hdelimiter : b ≠ Byte.delimiter) :
    Open (b :: written) := by
  obtain ⟨content, before, rfl, hno, hin, hclosed⟩ := h
  exact ⟨b :: content, before, rfl, List.not_mem_cons_of_ne_of_not_mem hquote.symm hno,
    List.not_mem_cons_of_ne_of_not_mem hdelimiter.symm hin, hclosed⟩

theorem Open.not_closed (h : Open written) : ¬ Token.Closed written := by
  obtain ⟨content, before, rfl, -, hin, -⟩ := h
  intro hclosed
  cases content with
  | nil => exact absurd (hclosed _ rfl) (by decide)
  | cons last content => exact hin (hclosed last rfl ▸ List.mem_cons_self)

theorem getLast?_cons_delimiter {behind : List UInt8}
    (h : behind = [] ∨ behind.getLast? = some Byte.delimiter) :
    (Byte.delimiter :: behind).getLast? = some Byte.delimiter := by
  rw [List.getLast?_cons]
  rcases h with rfl | h
  · rfl
  · rw [h, Option.getD_some]

/-- What begins a segment of its own leaves a broken one as it is. -/
theorem Broken.append (h : Broken written) (hclosed : Token.Closed written) :
    Broken (more ++ written) := by
  obtain ⟨behind, before, rfl, hopen, rfl | hlast⟩ := h
  · exact (hopen.not_closed hclosed).elim
  · refine ⟨more ++ behind, before, (List.append_assoc ..).symm, hopen, Or.inr ?_⟩
    rw [List.getLast?_append, hlast, Option.some_or]

/-- A broken segment is not mended by bytes other than quotes. -/
theorem Broken.join (h : Broken written) (hquote : b ≠ Byte.quote) : Broken (b :: written) := by
  obtain ⟨behind, before, rfl, hopen, hlast⟩ := h
  by_cases hb : b = Byte.delimiter
  · subst hb
    exact ⟨_, before, rfl, hopen, Or.inr (getLast?_cons_delimiter hlast)⟩
  · rcases hlast with rfl | hlast
    · exact (hopen.join hquote hb).broken
    · refine ⟨b :: behind, before, rfl, hopen, Or.inr ?_⟩
      rw [List.getLast?_cons, hlast, Option.getD_some]

theorem Broken.closed (h : Broken written) : Broken (Delimited.closed written) := by
  cases written with
  | nil => exact h
  | cons last before =>
    rw [Delimited.closed]
    split
    · exact h
    · exact h.join (by decide)

theorem classOf_eq_quote : ByteTable.standard.classOf b = .quote ↔ b = Byte.quote := by
  have hiff := standard_isQuote (b := b)
  rw [ByteTable.isQuote, Bool.eq_iff_iff, beq_iff_eq, beq_iff_eq] at hiff
  exact hiff

theorem substitute_eq_delimiter {s : UInt8}
    (h : ByteTable.standard.classOf b = .substitute s) : s = Byte.delimiter := by
  rw [standard_classOf] at h
  repeat' split at h
  all_goals first | cases h; rfl | cases h

/-- Every byte outside comments and quotes that is allowed is one of these. -/
theorem writes_of_plainStep (h : plainStep .standard b next d = (.ok mode, d')) :
    Writes b next d.written mode d'.written := by
  unfold plainStep at h
  split at h
  · next hline =>
    cases h
    rw [endLine_written]
    exact .apart [Byte.newline] (by rw [hline]; decide) fun hc =>
      absurd (hline.symm.trans hc.1) (by decide)
  split at h
  · next hcomment =>
    cases h
    exact .comment hcomment.1 hcomment.2
  next hcomment =>
  by_cases hquote : b = Byte.quote
  · rw [classOf_eq_quote.mpr hquote] at h
    cases h
    rw [hquote, write_written, delimit_written]
    exact .quote rfl
  split at h
  case h_1 =>
    cases h
    rw [writeText_written]
    split
    · exact .joined hquote hcomment
    · exact .apart [b] hquote hcomment
  case h_2 => cases h
  case h_3 =>
    cases h
    exact .nothing hquote hcomment
  case h_4 =>
    cases h
    rw [writeOperator_written]
    split
    · exact .joined hquote hcomment
    · exact .apart [b] hquote hcomment
  case h_5 hclass => exact (hquote (classOf_eq_quote.mp hclass)).elim
  case h_6 =>
    cases h
    rw [writeSeparator_written]
    exact .apart [Byte.delimiter, b] hquote hcomment
  case h_7 hclass =>
    cases h
    rw [substitute_eq_delimiter hclass, writeSubstitute_written]
    exact .apart [] hquote hcomment

theorem Spoiled.writes (h : Writes b next written mode written') (hb : Broken written) :
    Spoiled mode written' := by
  cases h with
  | comment | nothing => exact hb
  | quote => exact ⟨[Byte.quote], closed written, rfl, closed_closed, hb.closed⟩
  | joined hquote => exact hb.join hquote
  | apart more => exact hb.closed.append closed_closed

theorem Spoiled.broken (h : Spoiled mode written) : Broken written := by
  cases mode with
  | plain | comment => exact h
  | quoted =>
    obtain ⟨content, before, rfl, hclosed, hb⟩ := h
    exact hb.append hclosed

/-- No byte mends a segment that is broken. -/
theorem Spoiled.step (h : Delimited.step .standard maxString mode b next d = (.ok mode', d'))
    (hs : Spoiled mode d.written) : Spoiled mode' d'.written := by
  cases mode with
  | plain => exact .writes (writes_of_plainStep h) hs
  | comment =>
    simp only [Delimited.step] at h
    split at h
    · cases h
      rw [endLine_written]
      have hline : Broken ([Byte.newline] ++ closed d.written) :=
        (Broken.closed hs).append closed_closed
      exact hline
    · cases h
      exact hs
  | quoted held =>
    have hbroken : Broken d.written := hs.broken
    obtain ⟨content, before, hwritten, hclosed, hb⟩ := hs
    have hmore : b :: d.written = (b :: content) ++ before := by rw [hwritten, List.cons_append]
    cases step_quoted_iff.mp h with
    | outside _ hplain => exact .writes (writes_of_plainStep hplain) hbroken
    | closing =>
      show Broken (b :: d.written)
      rw [hmore]
      exact hb.append hclosed
    | content => exact ⟨b :: content, before, hmore, hclosed, hb⟩

theorem Spoiled.read (h : Delimited.read .standard maxString mode source d = (.ok mode', d'))
    (hs : Spoiled mode d.written) : Broken d'.written :=
  Spoiled.broken
    (read_preserves (I := fun mode d => Spoiled mode d.written) Spoiled.step h hs)

theorem Writes.began (h : Writes b next written mode written') : Began maxString mode written' := by
  cases h with
  | quote => exact ⟨Nat.zero_le _, open_quote⟩
  | comment | nothing | joined | apart => trivial

/-- What is closed behind a byte is closed from that byte on. -/
theorem Writes.quotesClosed {rest : List UInt8}
    (h : Writes b rest.head? written mode written') (ha : Ahead maxString mode rest) :
    QuotesClosed maxString (b :: rest) := by
  cases h with
  | comment hb hnext =>
    obtain ⟨tail, rfl⟩ := List.head?_eq_some_iff.mp hnext
    rw [hb]
    exact .comment ha
  | quote hb =>
    obtain ⟨content, behind, rfl, hin, hlen, hclosed⟩ := ha
    rw [hb]
    exact .literal hin (Nat.zero_add content.length ▸ hlen) hclosed
  | nothing hquote hcomment | joined hquote hcomment | apart _ hquote hcomment =>
    exact .other hquote hcomment ha

/-- Where no segment is left broken, all quotes are closed as they should be. -/
theorem ahead_of_read (h : Delimited.read .standard maxString mode source d = (.ok mode', d'))
    (hbegan : Began maxString mode d.written) (hb : ¬ Broken d'.written) :
    Ahead maxString mode source := by
  induction source generalizing mode d with
  | nil =>
    cases h
    cases mode' with
    | plain | comment => exact .nil
    | quoted => exact (hb hbegan.2.broken).elim
  | cons b rest ih =>
    obtain ⟨mode₁, d₁, hstep, hrest⟩ := read_cons_eq_ok.mp h
    cases mode with
    | plain =>
      have hwrites := writes_of_plainStep hstep
      exact hwrites.quotesClosed (ih hrest hwrites.began)
    | comment =>
      simp only [step] at hstep
      split at hstep
      · next hline =>
        cases hstep
        subst hline
        exact .other (by decide) (fun hc => absurd hc.1 (by decide)) (ih hrest trivial)
      · next hline =>
        cases hstep
        have hahead : Ahead maxString .comment rest := ih hrest trivial
        rwa [Ahead, ← List.dropWhile_cons_of_pos (a := b) (by simpa using hline)] at hahead
    | quoted held =>
      obtain ⟨hheld, hopen⟩ := hbegan
      cases step_quoted_iff.mp hstep with
      | outside _ hplain =>
        -- a literal that ends otherwise than by a quote stays broken
        exact (hb (Spoiled.read hrest (.writes (writes_of_plainStep hplain) hopen.broken))).elim
      | closing hquote =>
        rw [hquote]
        exact ⟨[], rest, rfl, by simp, hheld, ih hrest trivial⟩
      | content hline hdelimiter hquote hroom =>
        obtain ⟨content, behind, rfl, hin, hlen, hclosed⟩ :=
          ih hrest ⟨hroom, hopen.join hquote hdelimiter⟩
        refine ⟨b :: content, behind, rfl, List.forall_mem_cons.mpr ⟨⟨hquote, hline⟩, hin⟩, ?_,
          hclosed⟩
        rw [List.length_cons]
        omega

/-- A quote without another one behind it makes no lexeme. -/
theorem ofText?_unclosed {content : List UInt8} (h : Byte.quote ∉ content) :
    Kind.ofText? (Token.textOfBytes (Byte.quote :: content)) = none := by
  have htext : (Token.textOfBytes (Byte.quote :: content)).toList =
      '\'' :: (Token.textOfBytes content).toList := by
    rw [Token.toList_textOfBytes, Token.toList_textOfBytes, List.map_cons, Token.charOfByte_quote]
  exact Lexeme.ofText?_unclosed htext (Token.quote_not_mem_textOfBytes h)

theorem ofWritten_open {content before : List UInt8} (hin : Byte.delimiter ∉ content)
    (hclosed : Token.Closed before) : Token.ofWritten (content ++ Byte.quote :: before) =
      (⟨Token.textOfBytes (Byte.quote :: content.reverse), (Token.ofWritten before).2⟩ ::
        (Token.ofWritten before).1, (Token.ofWritten before).2) := by
  have hdelimiter : Byte.delimiter ∉ Byte.quote :: content.reverse :=
    List.not_mem_cons_of_ne_of_not_mem (by decide) (by rwa [List.mem_reverse])
  have hof := Token.ofWritten_append hclosed hdelimiter
  rwa [Token.collect_of_not_lineMark rfl, List.reverse_cons, List.reverse_reverse,
    List.append_assoc, List.singleton_append] at hof

theorem Open.token (h : Open written) :
    ∃ token ∈ (Token.ofWritten written).1, Kind.ofText? token.text = none := by
  obtain ⟨content, before, rfl, hno, hin, hclosed⟩ := h
  rw [ofWritten_open hin hclosed]
  exact ⟨_, List.mem_cons_self, ofText?_unclosed (by rwa [List.mem_reverse])⟩

/-- A broken segment makes a token that is no lexeme. -/
theorem Broken.token (h : Broken written) :
    ∃ token ∈ Token.ofDelimited written.reverse, Kind.ofText? token.text = none := by
  obtain ⟨behind, before, rfl, hopen, hlast⟩ := h
  obtain ⟨token, hmem, hkind⟩ := hopen.token
  refine ⟨token, ?_, hkind⟩
  rw [Token.ofDelimited_reverse, List.mem_reverse]
  rcases hlast with rfl | hlast
  · exact hmem
  · obtain ⟨more, rfl⟩ := List.getLast?_eq_some_iff.mp hlast
    rw [Token.ofWritten, List.append_assoc, List.singleton_append, List.reverse_append,
      List.reverse_cons, List.append_assoc, List.singleton_append,
      Token.segments_append_delimiter, List.foldl_append]
    exact Token.mem_foldl_collect hmem

theorem finish_written : (finish mode d).written = d.written := by
  cases mode <;> rfl

/-- Delimited text is what was written when the source was read to its end, all quotes in
pairs. -/
theorem ofSource_eq_ok_iff :
    (∃ metrics, ofSource .standard maxString source = (.ok text, metrics)) ↔
      ∃ mode d, read .standard maxString .plain source {} = (.ok mode, d) ∧
        d.written.count Byte.quote % 2 = 0 ∧ text = d.written.reverse := by
  rw [ofSource_eq]
  constructor
  · rintro ⟨metrics, h⟩
    split at h
    · cases h
    · next mode d hread =>
      simp only [finish_written, quoteCount_standard] at h
      split at h
      · next hquotes =>
        cases h
        exact ⟨mode, d, hread, hquotes, rfl⟩
      · cases h
  · rintro ⟨mode, d, hread, hquotes, rfl⟩
    simp [hread, finish_written, quoteCount_standard, hquotes]

end Delimited

variable {limits : Limits} {source : List UInt8} {tokens : Tokens}

/-- The quotes of a source are closed if all its tokens are lexemes. -/
theorem quotesClosed_of_tokenize (h : tokenize limits source = .ok tokens)
    (hkinds : ∀ token ∈ tokens.tokens, Kind.ofText? token.text ≠ none) :
    QuotesClosed limits.maxStringLength source := by
  cases hsource : Delimited.ofSource .standard limits.maxStringLength source with
  | mk result metrics =>
  cases result with
  | error e => cases (read_of_error hsource).symm.trans h
  | ok text =>
    obtain ⟨rfl, -⟩ := (tokenize_eq_ok_iff hsource).mp h
    obtain ⟨mode, d, hread, -, rfl⟩ := Delimited.ofSource_eq_ok_iff.mp ⟨metrics, hsource⟩
    refine Delimited.ahead_of_read hread trivial fun hbroken => ?_
    obtain ⟨token, hmem, hkind⟩ := hbroken.token
    exact hkinds token hmem hkind

end Ttm.Source
