import Ttm.Proofs.Source.Boundary

/-!
Tokens written one on each line are read as they were. Behind each byte of a source stands a segment
that would be written in the same way if it were read by itself, and what begins behind it is a
segment of its own.
-/
namespace Ttm.Source

/-- The text of a token as bytes, one for each character. -/
def Token.bytes (token : Token) : List UInt8 := token.text.toList.map fun c => .ofNat c.toNat

/-- The texts of tokens, each on a line of its own. -/
def Token.sheet (tokens : List Token) : List UInt8 :=
  [Byte.newline].intercalate (tokens.map Token.bytes)

/-- The texts of tokens as tokens, each on the line of its number. -/
def Token.numbered (tokens : List Token) : List Token :=
  tokens.mapIdx fun i token => ⟨token.text, i + 1⟩

namespace Delimited

/-- What stands between two delimiters and makes a token. -/
structure IsSegment (segment : List UInt8) : Prop where
  ne_nil : segment ≠ []
  delimiter : Byte.delimiter ∉ segment
  newline : Byte.newline ∉ segment

/-- Reading a segment from its first byte on writes just this segment, and leads to `mode`. -/
structure Replayed (maxString : Nat) (mode : Mode) (segment : List UInt8) : Prop
    extends IsSegment segment where
  read : ∃ d, read .standard maxString .plain segment.reverse {} = (.ok mode, d) ∧
    d.written = segment

/-- Reading a segment by itself writes it, with a delimiter behind it or without. -/
structure Restored (maxString : Nat) (segment : List UInt8) : Prop
    extends IsSegment segment where
  read : ∃ mode d, read .standard maxString .plain segment.reverse {} = (.ok mode, d) ∧
    closed d.written = closed segment

/-- Newlines, and segments that are restored, with a delimiter behind each. -/
inductive Settled (maxString : Nat) : List UInt8 → Prop
  | nil : Settled maxString []
  | newline {written : List UInt8} (h : Settled maxString written) :
    Settled maxString (Byte.delimiter :: Byte.newline :: written)
  | segment {segment written : List UInt8} (h : Settled maxString written)
      (hsegment : Restored maxString segment) :
    Settled maxString (Byte.delimiter :: (segment ++ written))

/-- Bytes that begin no string and end none are read as they are outside of quotes. -/
inductive Loose (maxString : Nat) : Mode → Prop
  | plain : Loose maxString .plain
  | full {held : Nat} (h : maxString ≤ held) : Loose maxString (.quoted held)

/-- What stands written outside of quotes. A string that was too long may be the last segment: by
itself it would still be read as quoted. -/
inductive Rests (maxString : Nat) : List UInt8 → Prop
  | settled {written : List UInt8} (h : Settled maxString written) : Rests maxString written
  | newline {written : List UInt8} (h : Settled maxString written) :
    Rests maxString (Byte.newline :: written)
  | segment {mode : Mode} {segment written : List UInt8} (h : Settled maxString written)
      (hsegment : Replayed maxString mode segment) (hmode : Loose maxString mode) :
    Rests maxString (segment ++ written)

/-- What stands written, by the place of the reader. -/
def Stands (maxString : Nat) : Mode → List UInt8 → Prop
  | .plain, written | .comment, written => Rests maxString written
  | .quoted held, written => ∃ segment before, written = segment ++ before ∧
    Settled maxString before ∧ Replayed maxString (.quoted held) segment

variable {maxString held : Nat} {b : UInt8} {next : Option UInt8} {mode mode' : Mode}
  {source segment written : List UInt8} {d d' : Draft}

theorem Settled.isClosed (h : Settled maxString written) : Token.Closed written := by
  cases h with
  | nil => exact fun _ h => by cases h
  | newline | segment =>
    intro last hlast
    cases hlast
    rfl

theorem isSegment_singleton (hline : b ≠ Byte.newline) (hdelimiter : b ≠ Byte.delimiter) :
    IsSegment [b] :=
  ⟨List.cons_ne_nil _ _, by simpa using hdelimiter.symm, by simpa using hline.symm⟩

theorem IsSegment.cons (h : IsSegment segment) (hline : b ≠ Byte.newline)
    (hdelimiter : b ≠ Byte.delimiter) : IsSegment (b :: segment) :=
  ⟨List.cons_ne_nil _ _, List.not_mem_cons_of_ne_of_not_mem hdelimiter.symm h.delimiter,
    List.not_mem_cons_of_ne_of_not_mem hline.symm h.newline⟩

theorem Replayed.restored (h : Replayed maxString mode segment) : Restored maxString segment := by
  obtain ⟨d, hread, hwritten⟩ := h.read
  exact ⟨h.toIsSegment, mode, d, hread, by rw [hwritten]⟩

theorem Restored.settled (h : Restored maxString segment) (hw : Settled maxString written) :
    Settled maxString (closed (segment ++ written)) := by
  rw [closed_append h.ne_nil h.delimiter]
  exact .segment hw h

theorem Rests.settled_closed (h : Rests maxString written) :
    Settled maxString (closed written) := by
  cases h with
  | settled h => rwa [closed_eq_self h.isClosed]
  | newline h => exact .newline h
  | segment h hsegment => exact hsegment.restored.settled h

theorem Stands.settled_closed (h : Stands maxString mode written) :
    Settled maxString (closed written) := by
  cases mode with
  | plain | comment => exact Rests.settled_closed h
  | quoted =>
    obtain ⟨segment, before, rfl, hbefore, hsegment⟩ := h
    exact hsegment.restored.settled hbefore

theorem Replayed.snoc (h : Replayed maxString mode segment)
    (hslash : b = Byte.slash → ∃ held, mode = .quoted held) (hline : b ≠ Byte.newline)
    (hdelimiter : b ≠ Byte.delimiter)
    (hstep : ∀ d : Draft, d.written = segment → ∃ d',
      step .standard maxString mode b none d = (.ok mode', d') ∧ d'.written = b :: segment) :
    Replayed maxString mode' (b :: segment) := by
  obtain ⟨d, hread, hwritten⟩ := h.read
  obtain ⟨d', hlast, hwritten'⟩ := hstep d hwritten
  refine ⟨h.toIsSegment.cons hline hdelimiter, d', ?_, hwritten'⟩
  have hnext : [b].head? = some Byte.slash → ∃ held, mode = .quoted held := fun hb =>
    hslash (Option.some.inj hb)
  rw [List.reverse_cons, read_append hread hnext, Delimited.read, List.head?_nil, hlast]
  rfl

theorem Loose.step (h : Loose maxString mode) (hdelimiter : b ≠ Byte.delimiter)
    (hquote : b ≠ Byte.quote) :
    ∃ d', d'.written = d.written ∧
      step .standard maxString mode b next d = plainStep .standard b next d' := by
  cases h with
  | plain => exact ⟨d, rfl, rfl⟩
  | full hroom =>
    exact ⟨d.endString, rfl,
      step_quoted_iff.mpr (.outside (Or.inr ⟨hdelimiter, hquote, hroom⟩) rfl)⟩

/-- A byte that was written is written at the end of a source too. -/
theorem plainStep_last (h : plainStep .standard b next d = (.ok mode, d'))
    (hwritten : d'.written ≠ d.written) : plainStep .standard b none d = (.ok mode, d') := by
  rw [← h]
  refine plainStep_congr fun hb => iff_of_false (by simp) fun hnext => hwritten ?_
  have hline : b ≠ Byte.newline := by
    rw [hb]
    decide
  rw [plainStep, if_neg hline, if_pos ⟨hb, hnext⟩] at h
  cases h
  rfl

/-- A segment of one byte. -/
theorem replayed_singleton (hline : b ≠ Byte.newline) (hdelimiter : b ≠ Byte.delimiter)
    (hstep : plainStep .standard b next {} = (.ok mode, d)) (hwritten : d.written = [b]) :
    Replayed maxString mode [b] := by
  refine ⟨isSegment_singleton hline hdelimiter, d, ?_, hwritten⟩
  have hlast : plainStep .standard b none {} = (.ok mode, d) :=
    plainStep_last hstep (by rw [hwritten]; exact List.cons_ne_nil _ _)
  simp only [List.reverse_singleton, Delimited.read, List.head?_nil, step, hlast]

/-- A byte that joins the last segment does so in the segment by itself. -/
theorem Replayed.join {p : UInt8 → Bool} (h : Replayed maxString mode segment)
    (hmode : Loose maxString mode) (hline : b ≠ Byte.newline) (hdelimiter : b ≠ Byte.delimiter)
    (hjoins : Byte.isWord b ∨ b = Byte.equals) (hlast : segment.head?.any p)
    (hstep : ∀ d, ∃ d', plainStep .standard b next d = (.ok mode', d') ∧
      d'.written = b :: joined p d.written) : Replayed maxString mode' (b :: segment) := by
  have hne {c : UInt8} (hc : Byte.isWord c = false) (hc' : c ≠ Byte.equals) : b ≠ c := by
    rintro rfl
    rcases hjoins with hword | hequals
    · simp [hword] at hc
    · exact hc' hequals
  have hslash : b ≠ Byte.slash := hne rfl (by decide)
  have hquote : b ≠ Byte.quote := hne rfl (by decide)
  refine h.snoc (fun hb => absurd hb hslash) hline hdelimiter fun d hd => ?_
  obtain ⟨d₀, hd₀, hplain⟩ : ∃ d', d'.written = d.written ∧
      step .standard maxString mode b none d = plainStep .standard b none d' :=
    hmode.step hdelimiter hquote
  obtain ⟨d', hd', hwritten⟩ := hstep d₀
  refine ⟨d', ?_, ?_⟩
  · rw [hplain, ← hd']
    exact plainStep_congr fun hb => absurd hb hslash
  · rw [hwritten, hd₀, hd, joined, if_pos hlast]

/-- What a byte can join is a segment of its own. -/
theorem Rests.exists_segment {p : UInt8 → Bool} (h : Rests maxString written)
    (hlast : written.head?.any p) (hp : p Byte.newline = false) (hp' : p Byte.delimiter = false) :
    ∃ mode segment before, written = segment ++ before ∧ Settled maxString before ∧
      Replayed maxString mode segment ∧ Loose maxString mode ∧ segment.head?.any p := by
  cases h with
  | settled h =>
    cases h with
    | nil => cases hlast
    | newline | segment => cases hp'.symm.trans hlast
  | newline => cases hp.symm.trans hlast
  | @segment mode segment before h hsegment hmode =>
    obtain ⟨last, rest, rfl⟩ := List.exists_cons_of_ne_nil hsegment.ne_nil
    exact ⟨mode, last :: rest, before, rfl, h, hsegment, hmode, hlast⟩

theorem Replayed.stands (h : Replayed maxString mode segment) (hw : Settled maxString written)
    (hmode : mode ≠ .comment) : Stands maxString mode (segment ++ written) := by
  cases mode with
  | plain => exact Rests.segment hw h .plain
  | comment => exact (hmode rfl).elim
  | quoted => exact ⟨segment, written, rfl, hw, h⟩

theorem written_of_comment (h : plainStep .standard b next d = (.ok .comment, d')) :
    d'.written = d.written := by
  unfold plainStep at h
  split at h
  · cases h
  split at h
  · cases h
    rfl
  · split at h <;> cases h

/-- Every byte outside of comments and quotes leaves segments that are restored. -/
theorem Rests.plainStep (h : Rests maxString d.written)
    (hstep : plainStep .standard b next d = (.ok mode', d')) :
    Stands maxString mode' d'.written := by
  obtain ⟨f, hf, hsteps⟩ : ∃ f, Wrote b .plain mode' f ∧ ∀ d, ∃ d',
      Delimited.plainStep .standard b next d = (.ok mode', d') ∧ d'.written = f d.written :=
    wrote_of_plainStep hstep
  have hwritten : d'.written = f d.written := by
    obtain ⟨e, hsame, he⟩ := hsteps d
    obtain ⟨-, rfl⟩ := Prod.mk.inj (hsame.symm.trans hstep)
    exact he
  obtain ⟨e, hfresh, he⟩ := hsteps {}
  rw [hwritten]
  have hsettled : Settled maxString (closed d.written) := h.settled_closed
  -- outside of quotes it is enough that the text rests
  have hstands {written : List UInt8} (hmode : ∀ held, mode' ≠ .quoted held)
      (hrests : Rests maxString written) : Stands maxString mode' written := by
    cases mode' with
    | plain | comment => exact hrests
    | quoted held => exact (hmode held rfl).elim
  cases hf with
  | kept hline hmode => exact hstands hmode h
  | cut => exact Rests.settled hsettled
  | newline => exact Rests.newline hsettled
  | separated hline hdelimiter =>
    have hrestored : Restored maxString [b] := by
      refine ⟨isSegment_singleton hline hdelimiter, .plain, e, ?_, ?_⟩
      · have hlast := plainStep_last hfresh (by rw [he]; simp)
        simp only [List.reverse_singleton, Delimited.read, List.head?_nil, step, hlast]
      · rw [he]
        simp [closed, hdelimiter]
    exact Rests.settled (.segment hsettled hrestored)
  | written p hline hdelimiter hp hp' hjoins =>
    have hmode : mode' ≠ .comment := by
      rintro rfl
      cases he.symm.trans (written_of_comment hfresh)
    show Stands maxString mode' (b :: joined p d.written)
    by_cases hlast : d.written.head?.any p
    · obtain ⟨m, segment, before, hsplit, hbefore, hsegment, hloose, hhead⟩ :=
        h.exists_segment hlast hp hp'
      obtain ⟨last, hmem, hplast⟩ := (Option.any_eq_true _ _).mp hlast
      rw [joined, if_pos hlast, hsplit]
      exact (hsegment.join hloose hline hdelimiter (hjoins last hplast) hhead hsteps).stands hbefore
        hmode
    · rw [joined, if_neg hlast]
      exact (replayed_singleton hline hdelimiter hfresh he).stands hsettled hmode

theorem Stands.quoted (h : Stands maxString (.quoted held) d.written)
    (hstep : step .standard maxString (.quoted held) b next d = (.ok mode', d')) :
    Stands maxString mode' d'.written := by
  have hsettled := h.settled_closed
  obtain ⟨segment, before, hsplit, hbefore, hsegment⟩ := h
  cases step_quoted_iff.mp hstep with
  | outside hends hplain =>
    rcases hends with hline | ⟨-, -, hroom⟩
    · rw [plainStep, if_pos hline] at hplain
      cases hplain
      rw [endLine_written]
      exact Rests.newline hsettled
    · have hrests : Rests maxString d.endString.written := by
        rw [endString_written, hsplit]
        exact .segment hbefore hsegment (.full hroom)
      exact hrests.plainStep hplain
  | closing hb =>
    have hline : b ≠ Byte.newline := by
      rw [hb]
      decide
    have hdelimiter : b ≠ Byte.delimiter := by
      rw [hb]
      decide
    have hclosed : Replayed maxString .plain (b :: segment) :=
      hsegment.snoc (fun _ => ⟨held, rfl⟩) hline hdelimiter fun d hd =>
        ⟨(d.advance.write b).endString, step_quoted_iff.mpr (.closing hb), by simp [hd]⟩
    rw [endString_written, write_written, advance_written, hsplit]
    exact hclosed.stands hbefore (by simp)
  | content hline hdelimiter hquote hroom =>
    have hheld : Replayed maxString (.quoted (held + 1)) (b :: segment) :=
      hsegment.snoc (fun _ => ⟨held, rfl⟩) hline hdelimiter fun d hd =>
        ⟨d.advance.write b, step_quoted_iff.mpr (.content hline hdelimiter hquote hroom),
          by simp [hd]⟩
    rw [write_written, advance_written, hsplit]
    exact hheld.stands hbefore (by simp)

theorem Stands.step (h : Stands maxString mode d.written)
    (hstep : step .standard maxString mode b next d = (.ok mode', d')) :
    Stands maxString mode' d'.written := by
  cases mode with
  | plain => exact Rests.plainStep h hstep
  | comment =>
    have hsettled : Settled maxString (closed d.written) := h.settled_closed
    simp only [Delimited.step] at hstep
    split at hstep
    · cases hstep
      rw [endLine_written]
      exact Rests.newline hsettled
    · cases hstep
      exact h
  | quoted held => exact h.quoted hstep

theorem Stands.read (h : Stands maxString mode d.written)
    (hread : read .standard maxString mode source d = (.ok mode', d')) :
    Stands maxString mode' d'.written :=
  read_preserves (I := fun mode d => Stands maxString mode d.written)
    (fun hstep hs => Stands.step hs hstep) hread h

end Delimited

namespace Token

open Delimited

/-- Reading the bytes of a token from the start of a line gives this token. -/
def Stable (maxString : Nat) (token : Token) : Prop :=
  ∃ mode d, Delimited.read .standard maxString .plain token.bytes {} = (.ok mode, d) ∧
    ofWritten d.written = ([⟨token.text, 1⟩], 1) ∧
    d.written.count Byte.quote = token.bytes.count Byte.quote

variable {maxString line : Nat} {segment written : List UInt8} {token : Token} {tokens : List Token}

theorem bytes_textOfBytes : bytes ⟨textOfBytes segment, line⟩ = segment := by
  rw [bytes, toList_textOfBytes, List.map_map]
  refine (List.map_congr_left fun b _ => ?_).trans (List.map_id segment)
  rw [Function.comp_apply, toNat_charOfByte, UInt8.ofNat_toNat]
  rfl

theorem ofWritten_segment (h : IsSegment segment) (hw : Closed written) :
    ofWritten (segment ++ written) =
      (⟨textOfBytes segment.reverse, (ofWritten written).2⟩ :: (ofWritten written).1,
        (ofWritten written).2) := by
  have hmark : isLineMark segment.reverse = false := by
    obtain ⟨last, rest, rfl⟩ := List.exists_cons_of_ne_nil h.ne_nil
    rw [isLineMark, List.all_eq_false]
    refine ⟨last, by simp, ?_⟩
    simpa using (List.ne_of_not_mem_cons h.newline).symm
  have hreverse : Byte.delimiter ∉ segment.reverse := by simpa using h.delimiter
  have hof := ofWritten_append hw hreverse
  rwa [List.reverse_reverse, collect_of_not_lineMark hmark] at hof

theorem stable_of_restored (h : Restored maxString segment) :
    Stable maxString ⟨textOfBytes segment.reverse, line⟩ := by
  obtain ⟨mode, d, hread, hclosed⟩ := h.read
  rw [Stable, bytes_textOfBytes]
  refine ⟨mode, d, hread, ?_, ?_⟩
  · have hof := @ofWritten_segment segment [] h.toIsSegment fun _ h => by cases h
    rw [List.append_nil] at hof
    rw [← ofWritten_closed, hclosed, ofWritten_closed, hof]
    rfl
  · rw [← count_closed, hclosed, count_closed, List.count_reverse]

/-- The tokens of settled text are stable, and hold its quotes. -/
theorem stable_of_settled (h : Settled maxString written) :
    (∀ token ∈ (ofWritten written).1, Stable maxString token) ∧
      written.count Byte.quote = ((ofWritten written).1.flatMap bytes).count Byte.quote := by
  have hline : Byte.newline ≠ Byte.quote := by decide
  have hdelimiter : Byte.delimiter ≠ Byte.quote := by decide
  induction h with
  | nil => exact ⟨fun _ h => (List.not_mem_nil h).elim, rfl⟩
  | @newline written h ih =>
    rw [ofWritten_delimiter, ← closed_eq_self h.isClosed, ofWritten_newline,
      closed_eq_self h.isClosed]
    refine ⟨ih.1, ?_⟩
    rw [List.count_cons_of_ne hdelimiter, List.count_cons_of_ne hline, ih.2]
  | @segment segment written h hsegment ih =>
    rw [ofWritten_delimiter, ofWritten_segment hsegment.toIsSegment h.isClosed]
    refine ⟨List.forall_mem_cons.mpr ⟨stable_of_restored hsegment, ih.1⟩, ?_⟩
    rw [List.count_cons_of_ne hdelimiter, List.count_append, ih.2, List.flatMap_cons,
      List.count_append, bytes_textOfBytes, List.count_reverse]

theorem sheet_cons_cons {second : Token} :
    sheet (token :: second :: tokens) =
      token.bytes ++ Byte.newline :: sheet (second :: tokens) := by
  simp [sheet, List.intercalate]

theorem numbered_cons : numbered (token :: tokens) =
    ⟨token.text, 1⟩ :: (numbered tokens).map (below 1) := by
  rw [numbered, List.mapIdx_cons]
  refine congrArg _ (List.ext_getElem? fun i => ?_)
  simp only [numbered, List.getElem?_map, List.getElem?_mapIdx, Option.map_map]
  rfl

/-- The tokens of a sheet are numbered by its lines. -/
theorem read_sheet (h : ∀ token ∈ tokens, Stable maxString token) :
    ∃ mode d, Delimited.read .standard maxString .plain (sheet tokens) {} = (.ok mode, d) ∧
      (ofWritten d.written).1.reverse = numbered tokens ∧
      d.written.count Byte.quote = (tokens.flatMap bytes).count Byte.quote := by
  induction tokens with
  | nil => exact ⟨.plain, {}, rfl, rfl, rfl⟩
  | cons token tokens ih =>
    obtain ⟨hfirst, hrest⟩ := List.forall_mem_cons.mp h
    obtain ⟨mode₁, d₁, hread₁, hof₁, hcount₁⟩ := hfirst
    cases tokens with
    | nil =>
      refine ⟨mode₁, d₁, ?_, by rw [hof₁]; rfl, by simpa using hcount₁⟩
      simpa [sheet, List.intercalate] using hread₁
    | cons second tokens =>
      obtain ⟨mode₂, d₂, hread₂, hof₂, hcount₂⟩ := ih hrest
      obtain ⟨d, hwritten, hread⟩ := read_append_newline hread₁ (sheet (second :: tokens))
      obtain ⟨e, hread', hbehind⟩ := behind_of_read hread₂ hwritten
      refine ⟨mode₂, e, by rw [sheet_cons_cons, hread, hread'], ?_, ?_⟩
      · rw [hbehind.ofWritten, hof₁, List.reverse_append, ← List.map_reverse, hof₂]
        exact numbered_cons.symm
      · rw [hbehind.count, hcount₂, hcount₁, Nat.add_comm, ← List.count_append]
        rfl

end Token

variable {limits : Limits} {source : List UInt8} {t : Tokens}

theorem stable_of_tokenize (h : tokenize limits source = .ok t) :
    (∀ token ∈ t.tokens, token.Stable limits.maxStringLength) ∧
      (t.tokens.flatMap Token.bytes).count Byte.quote % 2 = 0 := by
  obtain ⟨mode, d, hread, hquotes, htokens, -⟩ := tokenize_iff_read.mp ⟨_, h⟩
  have hstart : Delimited.Stands limits.maxStringLength .plain ({} : Delimited.Draft).written :=
    Delimited.Rests.settled .nil
  have hstands := hstart.read hread
  obtain ⟨hstable, hcount⟩ := Token.stable_of_settled hstands.settled_closed
  rw [Delimited.ofWritten_closed] at hstable hcount
  rw [Delimited.count_closed] at hcount
  rw [htokens, ((List.reverse_perm _).flatMap_right _).count_eq, ← hcount]
  exact ⟨fun token htoken => hstable token (List.mem_reverse.mp htoken), hquotes⟩

/-- The tokens of a source, written one on a line with or without a newline behind the last, are a
source with the same tokens, each on its own line. -/
theorem tokenize_sheet (limits : Limits) (source : List UInt8) (t : Tokens)
    (h : tokenize limits source = .ok t) :
    ∀ ending ∈ [[], [Byte.newline]], ∃ metrics,
      tokenize limits (Token.sheet t.tokens ++ ending) =
        .ok ⟨Token.numbered t.tokens, metrics⟩ := by
  obtain ⟨-, -, -, -, -, hlength⟩ := tokenize_iff_read.mp ⟨_, h⟩
  obtain ⟨hstable, hquotes⟩ := stable_of_tokenize h
  obtain ⟨mode, d, hread, htokens, hcount⟩ := Token.read_sheet hstable
  intro ending hending
  apply tokenize_iff_read.mpr
  simp only [List.mem_cons, List.not_mem_nil, or_false] at hending
  rcases hending with rfl | rfl
  · refine ⟨mode, d, by rwa [List.append_nil], by rwa [hcount], htokens.symm, ?_⟩
    rwa [Token.numbered, List.length_mapIdx]
  · obtain ⟨e, hwritten, hread'⟩ := Delimited.read_append_newline hread []
    refine ⟨.plain, e, hread'.trans rfl, ?_, ?_, by rwa [Token.numbered, List.length_mapIdx]⟩
    · rw [hwritten, List.count_cons_of_ne (by decide), Delimited.count_closed, hcount, hquotes]
    · rw [hwritten, Delimited.ofWritten_newline, htokens]

/-- A string too long by the `<` that `==` joins, and one that is left open on the next line. -/
def brokenSource : List UInt8 :=
  Byte.quote :: List.replicate 255 0x3C ++ [0x3D, 0x3D, 0x20, 0x78, 0x0A, Byte.quote, 0x61, 0x62]

theorem tokenize_sheet_brokenSource : ∃ t, tokenize .development brokenSource = .ok t ∧
    t.tokens.map (·.line) = [1, 1, 2] ∧
    ∃ metrics, tokenize .development (Token.sheet t.tokens ++ [Byte.newline]) =
      .ok ⟨Token.numbered t.tokens, metrics⟩ := by
  have hlines : (tokenize .development brokenSource).map (·.tokens.map (·.line)) =
      .ok [1, 1, 2] := by decide +kernel
  cases h : tokenize .development brokenSource with
  | error e =>
    rw [h] at hlines
    cases hlines
  | ok t =>
    rw [h] at hlines
    exact ⟨t, rfl, Except.ok.inj hlines,
      tokenize_sheet .development brokenSource t h [Byte.newline] (by simp)⟩

end Ttm.Source
