import Ttm.Proofs.Source.Munch
import Ttm.Proofs.Source.Segments

/-!
What reading a byte, or a run of bytes of one class, writes. Drafts that agree on the bytes written
go on alike, so only these are followed.
-/
namespace Ttm.Source.Delimited

variable {maxString held : Nat} {b : UInt8} {rest content written : List UInt8} {d : Draft}

@[simp]
theorem write_written : (d.write b).written = b :: d.written := rfl

@[simp]
theorem advance_written : d.advance.written = d.written := rfl

@[simp]
theorem skip_written : d.skip.written = d.written := rfl

@[simp]
theorem endString_written : d.endString.written = d.written := rfl

/-- A delimiter behind what was written, unless the next byte begins a segment anyway. -/
def closed : List UInt8 → List UInt8
  | [] => []
  | last :: before =>
    if last = Byte.delimiter then last :: before else Byte.delimiter :: last :: before

theorem closed_closed : Token.Closed (closed written) := by
  cases written with
  | nil => simp [closed, Token.Closed]
  | cons last _ => by_cases h : last = Byte.delimiter <;> simp [closed, Token.Closed, h]

theorem closed_eq_self (h : Token.Closed written) : closed written = written := by
  cases written with
  | nil => rfl
  | cons last before => rw [closed, if_pos (h last rfl)]

theorem closed_append {segment : List UInt8} (hne : segment ≠ [])
    (hdelimiter : Byte.delimiter ∉ segment) :
    closed (segment ++ written) = Byte.delimiter :: (segment ++ written) := by
  obtain ⟨last, before, rfl⟩ := List.exists_cons_of_ne_nil hne
  rw [List.cons_append, closed, if_neg (List.ne_of_not_mem_cons hdelimiter).symm]

theorem ofWritten_closed : Token.ofWritten (closed written) = Token.ofWritten written := by
  cases written with
  | nil => rfl
  | cons last _ =>
    by_cases h : last = Byte.delimiter
    · simp [closed, h]
    · simpa [closed, h] using Token.ofWritten_delimiter

theorem ofWritten_newline : Token.ofWritten (Byte.newline :: closed written) =
    ((Token.ofWritten written).1, (Token.ofWritten written).2 + 1) := by
  have hnot : Byte.delimiter ∉ [Byte.newline] := by decide
  rw [← @ofWritten_closed written]
  exact Token.ofWritten_append closed_closed hnot

theorem count_closed_of_ne (h : b ≠ Byte.delimiter) :
    (closed written).count b = written.count b := by
  cases written with
  | nil => rfl
  | cons last _ => by_cases hlast : last = Byte.delimiter <;> simp [closed, hlast, h.symm]

theorem count_closed : (closed written).count Byte.quote = written.count Byte.quote :=
  count_closed_of_ne (by decide)

theorem delimit_written : d.delimit.written = closed d.written := by
  rcases d with ⟨_ | ⟨last, _⟩⟩
  · rfl
  · by_cases h : last = Byte.delimiter <;> simp [Draft.delimit, Draft.write, closed, h]

theorem writeSubstitute_written :
    (d.writeSubstitute Byte.delimiter).written = closed d.written := by
  rcases d with ⟨_ | ⟨last, _⟩⟩
  · rfl
  · by_cases h : last = Byte.delimiter <;> simp [Draft.writeSubstitute, Draft.write, closed, h]

theorem standard_classOf : ByteTable.standard.classOf b =
    if Byte.isWord b then .text
    else if b == 0x20 || b == 0x09 || b == Byte.newline then .substitute Byte.delimiter
    else if b == 0x0D then .ignored
    else if Byte.operators.contains b then .operator
    else if b == 0x3B then .separator
    else if b == Byte.quote then .quote
    else .forbidden := by
  simp [ByteTable.standard]

theorem standard_isText : ByteTable.standard.isText b = Byte.isWord b := by
  rw [ByteTable.isText, standard_classOf]
  split
  · simp_all
  · repeat' split
    all_goals simp_all

theorem standard_isQuote : ByteTable.standard.isQuote b = (b == Byte.quote) := by
  rw [ByteTable.isQuote, standard_classOf]
  by_cases h : b = Byte.quote
  · subst h
    rfl
  · repeat' split
    all_goals simp_all

/-- What a byte does in quotes: it ends them or is read as if it stood outside, unless it is
refused. -/
inductive InQuotes (maxString held : Nat) (b : UInt8) (next : Option UInt8) (d : Draft) :
    Except Error Mode × Draft → Prop
  | outside {r : Except Error Mode × Draft}
      (hends : b = Byte.newline ∨ b ≠ Byte.delimiter ∧ b ≠ Byte.quote ∧ maxString ≤ held)
      (h : plainStep .standard b next d.endString = r) : InQuotes maxString held b next d r
  | refused {e : Error} {d' : Draft} (hb : b = Byte.delimiter) (h : refuse b d = (.error e, d')) :
    InQuotes maxString held b next d (.error e, d')
  | closing (hb : b = Byte.quote) :
    InQuotes maxString held b next d (.ok .plain, (d.advance.write b).endString)
  | content (hline : b ≠ Byte.newline) (hdelimiter : b ≠ Byte.delimiter) (hquote : b ≠ Byte.quote)
      (hroom : held < maxString) :
    InQuotes maxString held b next d (.ok (.quoted (held + 1)), d.advance.write b)

theorem step_quoted_iff {next : Option UInt8} {r : Except Error Mode × Draft} :
    step .standard maxString (.quoted held) b next d = r ↔
      InQuotes maxString held b next d r := by
  constructor
  · rintro rfl
    rw [step]
    by_cases hline : b = Byte.newline
    · rw [if_pos hline]
      exact .outside (Or.inl hline) rfl
    rw [if_neg hline]
    by_cases hdelimiter : b = Byte.delimiter
    · rw [if_pos hdelimiter]
      exact .refused hdelimiter rfl
    rw [if_neg hdelimiter, standard_isQuote]
    by_cases hquote : b = Byte.quote
    · rw [if_pos (beq_iff_eq.mpr hquote)]
      exact .closing hquote
    rw [if_neg (mt beq_iff_eq.mp hquote)]
    split
    · next hroom => exact .outside (Or.inr ⟨hdelimiter, hquote, hroom⟩) rfl
    · next hroom => exact .content hline hdelimiter hquote (Nat.lt_of_not_le hroom)
  · intro h
    cases h with
    | outside hends h =>
      rcases hends with hline | ⟨hdelimiter, hquote, hroom⟩
      · simp [step, hline, ← h]
      · simp [step, hdelimiter, standard_isQuote, hquote, hroom, h]
    | refused hb h => simp [step, hb, ← h, Byte.delimiter, Byte.newline]
    | closing hb => simp [step, hb, standard_isQuote, Byte.quote, Byte.delimiter, Byte.newline]
    | content hline hdelimiter hquote hroom =>
      simp [step, hline, hdelimiter, standard_isQuote, hquote, Nat.not_le_of_lt hroom]

theorem read_cons_eq_ok {t : ByteTable} {mode mode' : Mode} {d' : Draft} :
    read t maxString mode (b :: rest) d = (.ok mode', d') ↔
      ∃ mode₁ d₁, step t maxString mode b rest.head? d = (.ok mode₁, d₁) ∧
        read t maxString mode₁ rest d₁ = (.ok mode', d') := by
  rw [read]
  cases step t maxString mode b rest.head? d with
  | mk result d₁ =>
  cases result with
  | error => simp
  | ok mode₁ => simp [and_assoc]

/-- What each byte preserves is preserved by a source. -/
theorem read_preserves {t : ByteTable} {I : Mode → Draft → Prop}
    (hstep : ∀ {b next mode mode' d d'}, step t maxString mode b next d = (.ok mode', d') →
      I mode d → I mode' d')
    {mode mode' : Mode} {d' : Draft} {source : List UInt8}
    (h : read t maxString mode source d = (.ok mode', d')) (hd : I mode d) : I mode' d' := by
  induction source generalizing mode d with
  | nil =>
    cases h
    exact hd
  | cons b rest ih =>
    obtain ⟨mode₁, d₁, hb, hrest⟩ := read_cons_eq_ok.mp h
    exact ih hrest (hstep hb hd)

/-- Words are joined, and everything else begins a segment. -/
theorem writeText_written :
    (d.writeText .standard b).written =
      b :: if d.written.head?.any Byte.isWord then d.written else closed d.written := by
  rcases d with ⟨_ | ⟨last, _⟩⟩
  · rfl
  · by_cases h : last = Byte.delimiter
    · simp [Draft.writeText, Draft.write, closed, h]
    · by_cases hw : Byte.isWord last <;>
        simp [Draft.writeText, Draft.write, closed, h, hw, standard_isText]

theorem writeOperator_written :
    (d.writeOperator b).written =
      b :: if b = Byte.equals ∧ d.written.head?.any Byte.joinsEquals then d.written
        else closed d.written := by
  rw [Draft.writeOperator]
  split <;> simp [Draft.write, delimit_written, *]

theorem writeSeparator_written :
    (d.writeSeparator b).written = Byte.delimiter :: b :: closed d.written := by
  simp [Draft.writeSeparator, delimit_written]

theorem endLine_written : d.endLine.written = Byte.newline :: closed d.written := by
  simp [Draft.endLine, delimit_written]

theorem read_newline :
    read .standard maxString .plain (Byte.newline :: rest) d =
      read .standard maxString .plain rest d.endLine := by
  simp [read, step, plainStep]

theorem read_comment :
    read .standard maxString .plain (Byte.slash :: Byte.slash :: rest) d =
      read .standard maxString .comment rest d.advance.beginComment.advance.skip := by
  simp [read, step, plainStep, Byte.slash, Byte.newline]

theorem read_blank (h : b = 0x20 ∨ b = 0x09) :
    read .standard maxString .plain (b :: rest) d =
      read .standard maxString .plain rest (d.advance.writeSubstitute Byte.delimiter) := by
  rcases h with rfl | rfl <;>
    simp [read, step, plainStep, standard_classOf, Byte.isWord, Byte.slash, Byte.newline]

theorem read_return :
    read .standard maxString .plain (0x0D :: rest) d =
      read .standard maxString .plain rest d.advance.skip := by
  simp [read, step, plainStep, standard_classOf, Byte.isWord, Byte.slash, Byte.newline]

theorem ne_of_isWord (h : Byte.isWord b) {c : UInt8} (hc : Byte.isWord c = false) : b ≠ c := by
  rintro rfl
  simp [h] at hc

theorem read_word (h : Byte.isWord b) :
    read .standard maxString .plain (b :: rest) d =
      read .standard maxString .plain rest (d.advance.writeText .standard b) := by
  have hline : b ≠ Byte.newline := ne_of_isWord h rfl
  have hslash : b ≠ Byte.slash := ne_of_isWord h rfl
  simp [read, step, plainStep, standard_classOf, h, hline, hslash]

theorem ne_of_mem_operators (h : b ∈ Byte.operators) {c : UInt8} (hc : c ∉ Byte.operators) :
    b ≠ c := by
  rintro rfl
  exact hc h

theorem isWord_of_mem_operators (h : b ∈ Byte.operators) : Byte.isWord b = false := by
  have hall : Byte.operators.all (!Byte.isWord ·) := by decide
  simpa using List.all_eq_true.mp hall b h

theorem mem_operators_of_joinsEquals (h : Byte.joinsEquals b) : b ∈ Byte.operators := by
  simp only [Byte.joinsEquals, Bool.or_eq_true, beq_iff_eq] at h
  rcases h with ((rfl | rfl) | rfl) | rfl <;> decide

theorem read_operator (h : b ∈ Byte.operators)
    (hcomment : ¬ (b = Byte.slash ∧ rest.head? = some Byte.slash)) :
    read .standard maxString .plain (b :: rest) d =
      read .standard maxString .plain rest (d.advance.writeOperator b) := by
  have hword : Byte.isWord b = false := isWord_of_mem_operators h
  have hline : b ≠ Byte.newline := ne_of_mem_operators h (by decide)
  have hblank : b ≠ 0x20 := ne_of_mem_operators h (by decide)
  have htab : b ≠ 0x09 := ne_of_mem_operators h (by decide)
  have hreturn : b ≠ 0x0D := ne_of_mem_operators h (by decide)
  simp [read, step, plainStep, standard_classOf, hcomment, hword, hline, hblank, htab, hreturn, h]

theorem read_separator :
    read .standard maxString .plain (0x3B :: rest) d =
      read .standard maxString .plain rest (d.advance.writeSeparator 0x3B) := by
  simp [read, step, plainStep, standard_classOf, Byte.isWord, Byte.slash, Byte.newline,
    Byte.operators]

theorem read_quote :
    read .standard maxString .plain (Byte.quote :: rest) d =
      read .standard maxString (.quoted 0) rest (d.advance.delimit.write Byte.quote) := by
  simp [read, step, plainStep, standard_classOf, Byte.isWord, Byte.slash, Byte.newline,
    Byte.operators, Byte.quote]

/-- Whether a byte stands in a run of bytes that join, carriage returns among them. -/
def inRun (joins : UInt8 → Bool) (b : UInt8) : Bool := joins b || b == 0x0D

/-- Bytes that join the byte written last if it is in a class, which they then keep to. -/
structure Joining (maxString : Nat) (joins inClass : UInt8 → Bool) : Prop where
  read_joins : ∀ {b : UInt8} {rest : List UInt8} {d : Draft},
    joins b → d.written.head?.any inClass → ∃ d₁ : Draft, d₁.written = b :: d.written ∧
      read .standard maxString .plain (b :: rest) d = read .standard maxString .plain rest d₁
  inClass_of_joins : ∀ {b}, joins b → inClass b
  joins_return : joins 0x0D = false

/-- A run of joining bytes is written as it stands, carriage returns apart. -/
theorem Joining.read_run {joins inClass : UInt8 → Bool} (hj : Joining maxString joins inClass)
    (hw : d.written.head?.any inClass) :
    ∃ d', d'.written = ((rest.takeWhile (inRun joins)).filter joins).reverse ++ d.written ∧
      read .standard maxString .plain rest d =
        read .standard maxString .plain (rest.dropWhile (inRun joins)) d' := by
  induction rest generalizing d with
  | nil => exact ⟨d, rfl, rfl⟩
  | cons b rest ih =>
    by_cases hb : joins b
    · have hin : inRun joins b := by simp [inRun, hb]
      obtain ⟨d₁, hd₁, hstep⟩ := @hj.read_joins b rest d hb hw
      obtain ⟨d', hwritten, hread⟩ := ih (d := d₁) (by simp [hd₁, hj.inClass_of_joins hb])
      refine ⟨d', ?_, ?_⟩
      · simp [hwritten, hd₁, hin, hb]
      · rw [hstep, hread, List.dropWhile_cons_of_pos hin]
    · by_cases hr : b = 0x0D
      · subst hr
        have hin : inRun joins 0x0D := by simp [inRun]
        obtain ⟨d', hwritten, hread⟩ := ih (d := d.advance.skip) hw
        refine ⟨d', ?_, ?_⟩
        · simpa [hin, hj.joins_return] using hwritten
        · rw [read_return, hread, List.dropWhile_cons_of_pos hin]
      · exact ⟨d, by simp [inRun, hb, hr], by simp [inRun, hb, hr]⟩

/-- Bytes of words join words. -/
theorem joining_word : Joining maxString Byte.isWord Byte.isWord where
  read_joins hb hw :=
    ⟨_, by rw [writeText_written, advance_written, if_pos hw], read_word hb⟩
  inClass_of_joins := id
  joins_return := rfl

/-- An `=` joins the operators that it completes, itself among them. -/
theorem joining_comparison : Joining maxString (· == Byte.equals) Byte.joinsEquals where
  read_joins hb hw := by
    obtain rfl := beq_iff_eq.mp hb
    refine ⟨_, ?_, read_operator (by decide) fun h => absurd h.1 (by decide)⟩
    rw [writeOperator_written, advance_written, if_pos ⟨rfl, hw⟩]
  inClass_of_joins hb := by
    rw [beq_iff_eq.mp hb]
    rfl
  joins_return := rfl

/-- A comment writes nothing and ends before the newline, or with the source. -/
theorem read_comment_run :
    ∃ mode d', d'.written = d.written ∧
      (mode = .plain ∨ mode = .comment ∧ rest.dropWhile (· != Byte.newline) = []) ∧
      read .standard maxString .comment rest d =
        read .standard maxString mode (rest.dropWhile (· != Byte.newline)) d' := by
  induction rest generalizing d with
  | nil => exact ⟨.comment, d, rfl, Or.inr ⟨rfl, rfl⟩, rfl⟩
  | cons b rest ih =>
    by_cases hb : b = Byte.newline
    · subst hb
      refine ⟨.plain, d.skip, rfl, Or.inl rfl, ?_⟩
      simp [read, step, plainStep]
    · obtain ⟨mode, d', hwritten, hmode, hread⟩ := ih (d := d.advance.skip)
      refine ⟨mode, d', hwritten, ?_, ?_⟩
      · simpa [hb] using hmode
      · simpa [read, step, hb] using hread

/-- The content of a string literal is copied. -/
theorem read_quoted_run (hin : ∀ c ∈ content, Munch.inQuotes c)
    (hlen : held + content.length ≤ maxString) :
    ∃ d', d'.written = content.reverse ++ d.written ∧
      read .standard maxString (.quoted held) (content ++ rest) d =
        read .standard maxString (.quoted (held + content.length)) rest d' := by
  induction content generalizing d held with
  | nil => exact ⟨d, rfl, rfl⟩
  | cons c content ih =>
    rw [List.forall_mem_cons] at hin
    rw [List.length_cons] at hlen
    have hc : c ≠ Byte.quote ∧ c ≠ Byte.newline ∧ c ≠ Byte.delimiter := by
      simpa [Munch.inQuotes, and_assoc] using hin.1
    obtain ⟨d', hwritten, hread⟩ :=
      @ih (held + 1) (d.advance.write c) hin.2 (by omega)
    refine ⟨d', by simpa using hwritten, ?_⟩
    have hheld : ¬ maxString ≤ held := by omega
    rw [List.length_cons, Nat.add_comm content.length, ← Nat.add_assoc, ← hread]
    simp [read, step, standard_isQuote, hc, hheld]

theorem read_closing_quote :
    read .standard maxString (.quoted held) (Byte.quote :: rest) d =
      read .standard maxString .plain rest (d.advance.write Byte.quote).endString := by
  simp [read, step, standard_isQuote, Byte.quote, Byte.newline, Byte.delimiter]

theorem read_quoted_delimiter : ∃ e d',
    read .standard maxString (.quoted held) (Byte.delimiter :: rest) d = (.error e, d') := by
  simp [read, step, refuse, Byte.newline, Byte.delimiter]

theorem read_forbidden (h : ByteTable.standard.classOf b = .forbidden) (hline : b ≠ Byte.newline)
    (hcomment : ¬ (b = Byte.slash ∧ rest.head? = some Byte.slash)) : ∃ e d',
    read .standard maxString .plain (b :: rest) d = (.error e, d') := by
  simp [read, step, plainStep, refuse, h, hline, hcomment]

end Ttm.Source.Delimited
