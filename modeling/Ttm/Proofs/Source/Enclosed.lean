import Ttm.Proofs.Source.Broken

/-!
What stands between two quotes in delimited text. The limit counts the bytes of content, so a string
literal may take up two bytes more than that.
-/
namespace Ttm.Source.Delimited

/-- What is written for a byte in its place is never a quote. -/
def PlainSubstitutes (t : ByteTable) : Prop :=
  ∀ b s, t.classOf b = .substitute s → t.isQuote s = false

/-- A segment with quotes at both ends holds no more than `maxString` bytes between them. -/
def Within (t : ByteTable) (maxString : Nat) (segment : List UInt8) : Prop :=
  ∀ a content b, segment = a :: (content ++ [b]) → t.isQuote a → t.isQuote b →
    content.length ≤ maxString

/-- Every segment is within the limit. -/
def Enclosed (t : ByteTable) (maxString : Nat) (written : List UInt8) : Prop :=
  ∀ segment ∈ Token.segments written, Within t maxString segment

/-- Every segment is within the limit, and a quote that closes the literal being read leaves it
within. -/
structure Bounded (t : ByteTable) (maxString : Nat) (mode : Mode) (written : List UInt8) :
    Prop where
  enclosed : Enclosed t maxString written
  room : ∀ held, mode = .quoted held → held ≤ maxString ∧
    ∃ last before, Token.segments written = last :: before ∧ last.length ≤ held + 1

variable {t : ByteTable} {maxString held : Nat} {b : UInt8} {next : Option UInt8}
  {mode mode' : Mode} {source written segment content text : List UInt8} {d d' : Draft}
  {metrics : Metrics}

theorem within_of_length_le (h : segment.length ≤ maxString + 2) : Within t maxString segment := by
  rintro a content b rfl - -
  rw [List.length_cons, List.length_append, List.length_singleton] at h
  omega

theorem Within.reverse (h : Within t maxString segment) : Within t maxString segment.reverse := by
  intro a content b heq ha hb
  have hsegment : segment = b :: (content.reverse ++ [a]) := by
    rw [← List.reverse_reverse segment, heq]
    simp
  rw [← List.length_reverse]
  exact h b content.reverse a hsegment hb ha

/-- Two quotes are needed, one at each end. -/
theorem within_cons (hb : t.isQuote b = false) : Within t maxString (b :: segment) := by
  intro a content q heq ha
  cases heq
  rw [hb] at ha
  cases ha

/-- A byte other than a delimiter becomes the last byte of the last segment. -/
theorem segments_cons_of_ne (hb : b ≠ Byte.delimiter) :
    ∃ last before, Token.segments written = last :: before ∧
      Token.segments (b :: written) = (b :: last) :: before := by
  obtain ⟨last, before, hlast⟩ := List.exists_cons_of_ne_nil (@Token.segments_ne_nil written)
  have hcons : Token.segments (b :: written) = Token.consByte b (Token.segments written) := rfl
  exact ⟨last, before, hlast, by rw [hcons, hlast, Token.consByte, if_neg hb]⟩

/-- A byte that is written ends the last segment or becomes the last byte of it. -/
theorem segments_cons_cases :
    Token.segments (b :: written) = [] :: Token.segments written ∨
      ∃ last before, Token.segments written = last :: before ∧
        Token.segments (b :: written) = (b :: last) :: before := by
  by_cases hb : b = Byte.delimiter
  · rw [hb]
    exact Or.inl rfl
  · exact Or.inr (segments_cons_of_ne hb)

/-- Behind a delimiter the last segment is empty. -/
theorem segments_closed : ∃ before, Token.segments (closed written) = [] :: before := by
  cases written with
  | nil => exact ⟨[], rfl⟩
  | cons last written =>
    rw [closed]
    split
    · next hlast => exact ⟨_, by rw [hlast]; rfl⟩
    · exact ⟨_, rfl⟩

/-- Only the segment that a byte is written to can leave the limit. -/
theorem Enclosed.write (h : Enclosed t maxString written)
    (hlast : ∀ last before, Token.segments written = last :: before →
      Within t maxString (b :: last)) : Enclosed t maxString (b :: written) := by
  unfold Enclosed at h ⊢
  rcases @segments_cons_cases b written with heq | ⟨last, before, hw, heq⟩
  · rw [heq]
    exact List.forall_mem_cons.mpr ⟨within_of_length_le (Nat.zero_le _), h⟩
  · rw [hw] at h
    rw [heq]
    exact List.forall_mem_cons.mpr ⟨hlast last before hw, (List.forall_mem_cons.mp h).2⟩

theorem Enclosed.write_plain (h : Enclosed t maxString written) (hb : t.isQuote b = false) :
    Enclosed t maxString (b :: written) := h.write fun _ _ _ => within_cons hb

theorem Enclosed.delimiter (h : Enclosed t maxString written) :
    Enclosed t maxString (Byte.delimiter :: written) :=
  List.forall_mem_cons.mpr ⟨within_of_length_le (Nat.zero_le _), h⟩

theorem Enclosed.closed (h : Enclosed t maxString written) :
    Enclosed t maxString (closed written) := by
  cases written with
  | nil => exact h
  | cons last written =>
    rw [Delimited.closed]
    split
    · exact h
    · exact h.delimiter

/-- A byte behind a delimiter may be a quote, for it stands alone. -/
theorem Enclosed.write_apart (h : Enclosed t maxString written) :
    Enclosed t maxString (b :: Delimited.closed written) := by
  obtain ⟨before, hclosed⟩ := @segments_closed written
  refine h.closed.write fun last rest hlast => ?_
  obtain ⟨rfl, -⟩ := List.cons_eq_cons.mp (hclosed.symm.trans hlast)
  exact within_of_length_le (by simp)

theorem Enclosed.writeText (h : Enclosed t maxString d.written) (hb : t.isQuote b = false) :
    Enclosed t maxString (d.writeText t b).written := by
  unfold Draft.writeText
  split
  · exact h.write_plain hb
  · split
    · exact h.write_plain hb
    · exact h.delimiter.write_plain hb

theorem Enclosed.writeOperator (h : Enclosed t maxString d.written) (hb : t.isQuote b = false) :
    Enclosed t maxString (d.writeOperator b).written := by
  rw [writeOperator_written]
  split
  · exact h.write_plain hb
  · exact h.write_apart

theorem Enclosed.writeSubstitute (h : Enclosed t maxString d.written) (hb : t.isQuote b = false) :
    Enclosed t maxString (d.writeSubstitute b).written := by
  unfold Draft.writeSubstitute
  split
  · exact h
  · split
    · exact h
    · exact h.write_plain hb

theorem Enclosed.plain (h : Enclosed t maxString written) : Bounded t maxString .plain written :=
  ⟨h, fun held heq => by cases heq⟩

theorem Enclosed.comment (h : Enclosed t maxString written) :
    Bounded t maxString .comment written :=
  ⟨h, fun held heq => by cases heq⟩

/-- An opening quote stands alone. -/
theorem Enclosed.quoted (h : Enclosed t maxString written) :
    Bounded t maxString (.quoted 0) (b :: Delimited.closed written) := by
  refine ⟨h.write_apart, fun held heq => ?_⟩
  cases heq
  obtain ⟨before, hclosed⟩ := @segments_closed written
  rcases @segments_cons_cases b (Delimited.closed written) with heq | ⟨last, rest, hlast, heq⟩
  · exact ⟨Nat.zero_le _, _, _, heq, Nat.zero_le _⟩
  · obtain ⟨rfl, -⟩ := List.cons_eq_cons.mp (hclosed.symm.trans hlast)
    exact ⟨Nat.zero_le _, _, _, heq, Nat.le_refl _⟩

theorem isQuote_eq_false {c : ByteClass} (h : t.classOf b = c) (hc : c ≠ .quote) :
    t.isQuote b = false := by
  rw [ByteTable.isQuote, h]
  exact beq_eq_false_iff_ne.mpr hc

theorem bounded_of_plainStep (ht : PlainSubstitutes t)
    (h : plainStep t b next d = (.ok mode, d')) (hd : Enclosed t maxString d.written) :
    Bounded t maxString mode d'.written := by
  unfold plainStep at h
  split at h
  · cases h
    rw [endLine_written]
    exact hd.write_apart.plain
  split at h
  · cases h
    exact hd.comment
  split at h
  case h_1 hclass =>
    cases h
    exact (Enclosed.writeText (d := d.advance) hd (isQuote_eq_false hclass (by decide))).plain
  case h_2 => cases h
  case h_3 =>
    cases h
    exact hd.plain
  case h_4 hclass =>
    cases h
    exact (Enclosed.writeOperator (d := d.advance) hd (isQuote_eq_false hclass (by decide))).plain
  case h_5 =>
    cases h
    rw [write_written, delimit_written]
    exact hd.quoted
  case h_6 =>
    cases h
    rw [writeSeparator_written]
    exact hd.write_apart.delimiter.plain
  case h_7 s hclass =>
    cases h
    exact (Enclosed.writeSubstitute (d := d.advance) hd (ht b s hclass)).plain

/-- A literal is closed while there is room; past the limit no byte is written as content. -/
theorem Bounded.step (ht : PlainSubstitutes t)
    (h : Delimited.step t maxString mode b next d = (.ok mode', d'))
    (hd : Bounded t maxString mode d.written) : Bounded t maxString mode' d'.written := by
  cases mode with
  | plain => exact bounded_of_plainStep ht h hd.enclosed
  | comment =>
    simp only [Delimited.step] at h
    split at h
    · cases h
      rw [endLine_written]
      exact hd.enclosed.write_apart.plain
    · cases h
      exact hd.enclosed.comment
  | quoted held =>
    obtain ⟨hheld, last, before, hlast, hlength⟩ := hd.room held rfl
    simp only [Delimited.step] at h
    split at h
    · exact bounded_of_plainStep ht h hd.enclosed
    split at h
    · cases h
    split at h
    · -- The last segment holds the opening quote and no more than `held` bytes behind it.
      cases h
      refine (hd.enclosed.write fun last' before' hlast' => ?_).plain
      obtain ⟨rfl, -⟩ := List.cons_eq_cons.mp (hlast.symm.trans hlast')
      exact within_of_length_le (by rw [List.length_cons]; omega)
    next hquote =>
    split at h
    · exact bounded_of_plainStep ht h hd.enclosed
    next hroom =>
    cases h
    refine ⟨hd.enclosed.write_plain (Bool.eq_false_iff.mpr hquote), fun held' heq => ?_⟩
    cases heq
    refine ⟨Nat.lt_of_not_le hroom, ?_⟩
    rcases @segments_cons_cases b d.written with heq | ⟨_, _, hw, heq⟩
    · exact ⟨_, _, heq, Nat.zero_le _⟩
    · obtain ⟨rfl, -⟩ := List.cons_eq_cons.mp (hlast.symm.trans hw)
      exact ⟨_, _, heq, Nat.succ_le_succ hlength⟩

theorem enclosed_of_read (ht : PlainSubstitutes t)
    (h : read t maxString .plain source {} = (.ok mode, d)) : Enclosed t maxString d.written := by
  have hstart : Enclosed t maxString ({} : Draft).written :=
    List.forall_mem_cons.mpr ⟨within_of_length_le (Nat.zero_le _), List.forall_mem_nil _⟩
  exact (read_preserves (I := fun mode d => Bounded t maxString mode d.written) (Bounded.step ht) h
    hstart.plain).enclosed

/-- What stands between two quotes of one segment is no longer than the limit. -/
theorem enclosed_ofSource (ht : PlainSubstitutes t)
    (h : ofSource t maxString source = (.ok text, metrics)) : Enclosed t maxString text := by
  rw [ofSource_eq] at h
  split at h
  · cases h
  next mode d hread =>
  simp only [finish_written] at h
  split at h
  · cases h
    -- The draft holds the text backwards.
    intro segment hsegment
    rw [Token.segments_reverse, List.mem_reverse, List.mem_map] at hsegment
    obtain ⟨backwards, hmem, rfl⟩ := hsegment
    exact (enclosed_of_read ht hread backwards hmem).reverse
  · cases h

theorem plainSubstitutes_standard : PlainSubstitutes .standard := by
  intro b s h
  rw [substitute_eq_delimiter h, standard_isQuote]
  rfl

/-- In the language, content that cannot end a literal is copied up to the limit and no further. -/
theorem ofSource_literal_iff (hin : ∀ c ∈ content, Munch.inQuotes c) :
    (∃ metrics, ofSource .standard maxString (Byte.quote :: (content ++ [Byte.quote])) =
      (.ok (Byte.quote :: (content ++ [Byte.quote])), metrics)) ↔ content.length ≤ maxString := by
  have hdelimiter : Byte.delimiter ∉ content := fun hmem =>
    absurd (hin Byte.delimiter hmem) (by decide)
  have hquote : Byte.quote ∉ content := fun hmem => absurd (hin Byte.quote hmem) (by decide)
  constructor
  · rintro ⟨metrics, h⟩
    have hne : Byte.delimiter ≠ Byte.quote := by decide
    have hnot : Byte.delimiter ∉ Byte.quote :: (content ++ [Byte.quote]) := by
      simp [hdelimiter, hne]
    have hall := enclosed_ofSource plainSubstitutes_standard h
    rw [Enclosed, Token.segments_of_not_mem hnot, List.forall_mem_singleton] at hall
    exact hall Byte.quote content Byte.quote rfl (by rw [standard_isQuote]; rfl)
      (by rw [standard_isQuote]; rfl)
  · intro hlen
    obtain ⟨d, hwritten, hread⟩ := @read_quoted_run maxString 0 [Byte.quote] content
      (({} : Draft).advance.delimit.write Byte.quote) hin (by rwa [Nat.zero_add])
    refine ofSource_eq_ok_iff.mpr ⟨.plain, (d.advance.write Byte.quote).endString, ?_, ?_, ?_⟩
    · rw [read_quote, hread, read_closing_quote]
      rfl
    · simp [hwritten, delimit_written, closed, List.count_eq_zero_of_not_mem hquote]
    · simp [hwritten, delimit_written, closed]

end Ttm.Source.Delimited
