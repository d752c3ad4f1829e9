import Ttm.Proofs.Source.Broken

/-!
A newline ends whatever stands open before it. What is read behind it is written as it is written
from the start of a text, whatever stands above.
-/
namespace Ttm.Source

/-- The token, in a text that stands below `lines` other lines. -/
def Token.below (lines : Nat) (token : Token) : Token :=
  { token with line := token.line + lines }

namespace Delimited

/-- What stands before the next byte, which joins a byte of `p` and begins a segment otherwise. -/
def joined (p : UInt8 → Bool) (written : List UInt8) : List UInt8 :=
  if written.head?.any p then written else closed written

/-- How a byte changes the bytes written, whatever these are. -/
inductive Wrote (b : UInt8) : Mode → Mode → (List UInt8 → List UInt8) → Prop
  | kept {mode mode' : Mode} (hline : b ≠ Byte.newline) (hmode : ∀ held, mode' ≠ .quoted held) :
    Wrote b mode mode' id
  | cut {mode : Mode} (hline : b ≠ Byte.newline) : Wrote b mode .plain closed
  | newline {mode : Mode} (hline : b = Byte.newline) :
    Wrote b mode .plain fun written => Byte.newline :: closed written
  | written {mode mode' : Mode} (p : UInt8 → Bool) (hline : b ≠ Byte.newline)
      (hdelimiter : b ≠ Byte.delimiter) (hp : p Byte.newline = false)
      (hp' : p Byte.delimiter = false) (hjoins : ∀ last, p last → Byte.isWord b ∨ b = Byte.equals) :
    Wrote b mode mode' fun written => b :: joined p written
  | separated {mode : Mode} (hline : b ≠ Byte.newline) (hdelimiter : b ≠ Byte.delimiter) :
    Wrote b mode .plain fun written => Byte.delimiter :: b :: closed written
  | quoted {held : Nat} {mode' : Mode} (hline : b ≠ Byte.newline)
      (hdelimiter : b ≠ Byte.delimiter) : Wrote b (.quoted held) mode' (b :: ·)

/-- How the bytes of a source change the bytes written, one after the other. -/
inductive Writing : Mode → List UInt8 → Mode → (List UInt8 → List UInt8) → Prop
  | nil {mode : Mode} : Writing mode [] mode id
  | cons {mode mode₁ mode' : Mode} {b : UInt8} {rest : List UInt8} {f g : List UInt8 → List UInt8}
      (hb : Wrote b mode mode₁ f) (hrest : Writing mode₁ rest mode' g) :
    Writing mode (b :: rest) mode' (g ∘ f)

/-- Bytes written behind a newline, beside what is written without the text above it. -/
inductive Behind (above : List UInt8) : Mode → List UInt8 → List UInt8 → Prop
  | apart {mode : Mode} {written : List UInt8} :
    Behind above mode written (written ++ Byte.delimiter :: Byte.newline :: above)
  | fresh {mode : Mode} (hmode : ∀ held, mode ≠ .quoted held) :
    Behind above mode [] (Byte.newline :: above)

/-- The segment written last is more than a run of newlines. -/
def Inked (written : List UInt8) : Prop :=
  ∃ last ∈ written.head?, last ≠ Byte.newline ∧ last ≠ Byte.delimiter

variable {maxString : Nat} {b : UInt8} {next next' : Option UInt8} {mode mode' : Mode}
  {source rest above written written' text : List UInt8} {d d' : Draft} {p : UInt8 → Bool}
  {f : List UInt8 → List UInt8}

theorem writeText_joined :
    (d.writeText .standard b).written = b :: joined Byte.isWord d.written := writeText_written

theorem writeOperator_joined :
    (d.writeOperator b).written =
      b :: joined (fun last => b == Byte.equals && Byte.joinsEquals last) d.written := by
  rw [writeOperator_written, joined]
  congr 2
  cases d.written.head? <;> simp

theorem ne_delimiter_of_classOf (h : ByteTable.standard.classOf b ≠ .forbidden) :
    b ≠ Byte.delimiter := by
  rintro rfl
  apply h
  rw [standard_classOf]
  rfl

/-- The bytes read decide what is written, not the draft. -/
theorem wrote_of_plainStep (h : plainStep .standard b next d = (.ok mode', d')) :
    ∃ f, Wrote b mode mode' f ∧
      ∀ d, ∃ d', plainStep .standard b next d = (.ok mode', d') ∧ d'.written = f d.written := by
  unfold plainStep at h ⊢
  by_cases hline : b = Byte.newline
  · simp only [if_pos hline] at h ⊢
    cases h
    exact ⟨_, .newline hline, fun d => ⟨d.endLine, rfl, endLine_written⟩⟩
  by_cases hcomment : b = Byte.slash ∧ next = some Byte.slash
  · simp only [if_neg hline, if_pos hcomment] at h ⊢
    cases h
    exact ⟨id, .kept hline (by simp), fun d => ⟨d.advance.beginComment, rfl, rfl⟩⟩
  simp only [if_neg hline, if_neg hcomment] at h ⊢
  have hdelimiter : ByteTable.standard.classOf b ≠ .forbidden → b ≠ Byte.delimiter :=
    ne_delimiter_of_classOf
  generalize hclass : ByteTable.standard.classOf b = class' at h hdelimiter ⊢
  cases class' with
  | text =>
    cases h
    have hword : Byte.isWord b := by rwa [← standard_isText, ByteTable.isText, beq_iff_eq]
    exact ⟨_, .written Byte.isWord hline (hdelimiter (by simp)) rfl rfl fun _ _ => Or.inl hword,
      fun d => ⟨d.advance.writeText .standard b, rfl, writeText_joined⟩⟩
  | forbidden => cases h
  | ignored =>
    cases h
    exact ⟨id, .kept hline (by simp), fun d => ⟨d.advance.skip, rfl, rfl⟩⟩
  | operator =>
    cases h
    have hequals (last : UInt8) (h : b == Byte.equals && Byte.joinsEquals last) :
        Byte.isWord b ∨ b = Byte.equals := Or.inr (beq_iff_eq.mp (Bool.and_eq_true_iff.mp h).1)
    exact ⟨_, .written _ hline (hdelimiter (by simp)) (Bool.and_false _) (Bool.and_false _) hequals,
      fun d => ⟨d.advance.writeOperator b, rfl, writeOperator_joined⟩⟩
  | quote =>
    cases h
    refine ⟨_, .written (fun _ => false) hline (hdelimiter (by simp)) rfl rfl (by simp),
      fun d => ⟨d.advance.delimit.write b, rfl, ?_⟩⟩
    rw [write_written, delimit_written, advance_written]
    simp [joined]
  | separator =>
    cases h
    exact ⟨_, .separated hline (hdelimiter (by simp)),
      fun d => ⟨d.advance.writeSeparator b, rfl, writeSeparator_written⟩⟩
  | substitute s =>
    cases h
    obtain rfl := substitute_eq_delimiter hclass
    exact ⟨closed, .cut hline,
      fun d => ⟨d.advance.writeSubstitute Byte.delimiter, rfl, writeSubstitute_written⟩⟩

theorem uniform_of_step (h : step .standard maxString mode b next d = (.ok mode', d')) :
    ∃ f, Wrote b mode mode' f ∧ ∀ d, ∃ d',
      step .standard maxString mode b next d = (.ok mode', d') ∧ d'.written = f d.written := by
  cases mode with
  | plain => exact wrote_of_plainStep h
  | comment =>
    simp only [step] at h ⊢
    by_cases hline : b = Byte.newline
    · simp only [if_pos hline] at h ⊢
      cases h
      exact ⟨_, .newline hline, fun d => ⟨d.skip.endLine, rfl, endLine_written⟩⟩
    · simp only [if_neg hline] at h ⊢
      cases h
      exact ⟨id, .kept hline (by simp), fun d => ⟨d.advance.skip, rfl, rfl⟩⟩
  | quoted held =>
    cases step_quoted_iff.mp h with
    | outside hends h =>
      obtain ⟨f, hf, hall⟩ := wrote_of_plainStep h
      refine ⟨f, hf, fun d => ?_⟩
      obtain ⟨d', hd, hwritten⟩ := hall d.endString
      exact ⟨d', step_quoted_iff.mpr (.outside hends hd), hwritten⟩
    | closing hb =>
      refine ⟨_, .quoted (by rw [hb]; decide) (by rw [hb]; decide), fun d => ?_⟩
      exact ⟨_, step_quoted_iff.mpr (.closing hb), rfl⟩
    | content hline hdelimiter hquote hroom =>
      refine ⟨_, .quoted hline hdelimiter, fun d => ?_⟩
      exact ⟨_, step_quoted_iff.mpr (.content hline hdelimiter hquote hroom), rfl⟩

theorem wrote_of_step (h : step .standard maxString mode b next d = (.ok mode', d')) :
    ∃ f, Wrote b mode mode' f ∧ d'.written = f d.written ∧ ∀ e, ∃ e',
      step .standard maxString mode b next e = (.ok mode', e') ∧ e'.written = f e.written := by
  obtain ⟨f, hf, hsteps⟩ := uniform_of_step h
  obtain ⟨e, hstep, hwritten⟩ := hsteps d
  obtain ⟨-, rfl⟩ := Prod.mk.inj (hstep.symm.trans h)
  exact ⟨f, hf, hwritten, hsteps⟩

/-- Reading the same bytes from any draft `e` goes the same way. -/
theorem writing_of_read (h : read .standard maxString mode source d = (.ok mode', d')) :
    ∃ f, Writing mode source mode' f ∧ d'.written = f d.written ∧ ∀ e, ∃ e',
      read .standard maxString mode source e = (.ok mode', e') ∧ e'.written = f e.written := by
  induction source generalizing mode d with
  | nil =>
    cases h
    exact ⟨id, .nil, rfl, fun e => ⟨e, rfl, rfl⟩⟩
  | cons b rest ih =>
    obtain ⟨mode₁, d₁, hstep, hmore⟩ := read_cons_eq_ok.mp h
    obtain ⟨f, hf, hd₁, hsteps⟩ := wrote_of_step hstep
    obtain ⟨g, hg, hd', hreads⟩ := ih hmore
    refine ⟨g ∘ f, .cons hf hg, by rw [hd', hd₁]; rfl, fun e => ?_⟩
    obtain ⟨e₁, hstep, hwritten⟩ := hsteps e
    obtain ⟨e', hread, hwritten'⟩ := hreads e₁
    refine ⟨e', ?_, ?_⟩
    · rw [read, hstep]
      exact hread
    · rw [hwritten', hwritten]
      rfl

theorem Behind.closed_eq (h : Behind above mode written written') :
    closed written' = closed written ++ Byte.delimiter :: Byte.newline :: above := by
  cases h with
  | apart =>
    cases written with
    | nil => rfl
    | cons last before => by_cases hlast : last = Byte.delimiter <;> simp [closed, hlast]
  | fresh => rfl

theorem Behind.joined_eq (h : Behind above mode written written') (hp : p Byte.newline = false)
    (hp' : p Byte.delimiter = false) :
    joined p written' = joined p written ++ Byte.delimiter :: Byte.newline :: above := by
  have hclosed := h.closed_eq
  cases h with
  | apart =>
    cases written with
    | nil => simp [joined, hp', closed]
    | cons last before =>
      by_cases hlast : p last
      · simp [joined, hlast]
      · simpa [joined, hlast] using hclosed
  | fresh => simpa [joined, hp] using hclosed

theorem Behind.step (h : Behind above mode written written') (hb : Wrote b mode mode' f) :
    Behind above mode' (f written) (f written') := by
  cases hb with
  | kept hline hmode =>
    cases h with
    | apart => exact .apart
    | fresh => exact .fresh hmode
  | cut | newline | separated =>
    simp only [h.closed_eq]
    exact .apart
  | written p hline hdelimiter hp hp' =>
    simp only [h.joined_eq hp hp']
    exact .apart
  | quoted =>
    cases h with
    | apart => exact .apart
    | fresh hmode => exact (hmode _ rfl).elim

theorem Behind.writing (h : Behind above mode written written')
    (hf : Writing mode source mode' f) : Behind above mode' (f written) (f written') := by
  induction hf generalizing written written' with
  | nil => exact h
  | cons hb hrest ih => exact ih (h.step hb)

/-- A segment with another byte than newlines stays on its line. -/
theorem line_append {content before : List UInt8} {c : UInt8} (hbefore : Token.Closed before)
    (hdelimiter : Byte.delimiter ∉ content) (hc : c ∈ content) (hline : c ≠ Byte.newline) :
    (Token.ofWritten (content ++ before)).2 = (Token.ofWritten before).2 := by
  have hof := Token.ofWritten_append hbefore (fun h => hdelimiter (List.mem_reverse.mp h))
  have hmark : Token.isLineMark content.reverse = false := by
    rw [Token.isLineMark, List.all_eq_false]
    exact ⟨c, List.mem_reverse.mpr hc, by simpa using hline⟩
  rw [List.reverse_reverse, Token.collect_of_not_lineMark hmark] at hof
  rw [hof]

theorem exists_segment (written : List UInt8) : ∃ content before, written = content ++ before ∧
    Byte.delimiter ∉ content ∧ Token.Closed before := by
  refine ⟨written.takeWhile (· != Byte.delimiter), written.dropWhile (· != Byte.delimiter),
    List.takeWhile_append_dropWhile.symm, fun hmem => ?_, fun last hlast => ?_⟩
  · simpa using List.mem_takeWhile_imp hmem
  · have hnot := List.head?_dropWhile_not (· != Byte.delimiter) written
    rw [Option.mem_def.mp hlast] at hnot
    simpa using hnot

theorem Inked.line (h : Inked written) (hb : b ≠ Byte.delimiter) :
    (Token.ofWritten (b :: written)).2 = (Token.ofWritten written).2 := by
  obtain ⟨last, hlast, hline, hdelimiter⟩ := h
  obtain ⟨before, rfl⟩ := List.head?_eq_some_iff.mp hlast
  obtain ⟨content, before, rfl, hcontent, hbefore⟩ := exists_segment before
  have hin : Byte.delimiter ∉ last :: content := List.not_mem_cons_of_ne_of_not_mem
    hdelimiter.symm hcontent
  have hin' : Byte.delimiter ∉ b :: last :: content :=
    List.not_mem_cons_of_ne_of_not_mem hb.symm hin
  exact (line_append hbefore hin' (List.mem_cons_of_mem _ List.mem_cons_self) hline).trans
    (line_append hbefore hin List.mem_cons_self hline).symm

theorem line_cons_closed (hline : b ≠ Byte.newline) (hdelimiter : b ≠ Byte.delimiter) :
    (Token.ofWritten (b :: closed written)).2 = (Token.ofWritten written).2 := by
  have hin : Byte.delimiter ∉ [b] := by simpa using hdelimiter.symm
  rw [← List.singleton_append, line_append closed_closed hin List.mem_cons_self hline,
    ofWritten_closed]

/-- What a byte joins is neither a newline nor a delimiter. -/
theorem inked_of_any (hp : p Byte.newline = false) (hp' : p Byte.delimiter = false)
    (h : written.head?.any p) : Inked written := by
  obtain ⟨last, hlast, hjoins⟩ := (Option.any_eq_true ..).mp h
  refine ⟨last, hlast, ?_, ?_⟩
  · rintro rfl
    simp [hp] at hjoins
  · rintro rfl
    simp [hp'] at hjoins

theorem line_cons_joined (hline : b ≠ Byte.newline) (hdelimiter : b ≠ Byte.delimiter)
    (hp : p Byte.newline = false) (hp' : p Byte.delimiter = false) :
    (Token.ofWritten (b :: joined p written)).2 = (Token.ofWritten written).2 := by
  by_cases hjoins : written.head?.any p
  · rw [joined, if_pos hjoins]
    exact (inked_of_any hp hp' hjoins).line hdelimiter
  · rw [joined, if_neg hjoins]
    exact line_cons_closed hline hdelimiter

/-- The line reached moves on at a newline, and at no other byte. -/
theorem Wrote.line (h : Wrote b mode mode' f) (hw : ∀ held, mode = .quoted held → Inked written) :
    (Token.ofWritten (f written)).2 = (Token.ofWritten written).2 + [b].count Byte.newline := by
  have hcount (hline : b ≠ Byte.newline) : [b].count Byte.newline = 0 := by
    simpa [List.count_singleton] using hline
  cases h with
  | kept hline => rw [hcount hline, id, Nat.add_zero]
  | cut hline => rw [hcount hline, ofWritten_closed, Nat.add_zero]
  | newline hline =>
    subst hline
    rw [ofWritten_newline, List.count_singleton_self]
  | written p hline hdelimiter hp hp' =>
    rw [hcount hline, line_cons_joined hline hdelimiter hp hp', Nat.add_zero]
  | separated hline hdelimiter =>
    rw [hcount hline, Token.ofWritten_delimiter, line_cons_closed hline hdelimiter, Nat.add_zero]
  | quoted hline hdelimiter => rw [hcount hline, (hw _ rfl).line hdelimiter, Nat.add_zero]

/-- What stands in quotes does not begin with a newline. -/
theorem Wrote.inked (h : Wrote b mode mode' f) (held : Nat) (hmode : mode' = .quoted held) :
    Inked (f written) := by
  subst hmode
  cases h with
  | kept hline hmode => exact (hmode held rfl).elim
  | written p hline hdelimiter | quoted hline hdelimiter => exact ⟨b, rfl, hline, hdelimiter⟩

theorem Writing.line (h : Writing mode source mode' f)
    (hw : ∀ held, mode = .quoted held → Inked written) :
    (Token.ofWritten (f written)).2 =
      (Token.ofWritten written).2 + source.count Byte.newline := by
  induction h generalizing written with
  | nil => rfl
  | @cons mode mode₁ mode' b rest f g hb hrest ih =>
    have hcount : (b :: rest).count Byte.newline =
        [b].count Byte.newline + rest.count Byte.newline := by
      rw [← List.count_append, List.singleton_append]
    rw [Function.comp_apply, ih hb.inked, hb.line hw, hcount, Nat.add_assoc]

theorem line_of_read (h : read .standard maxString .plain source {} = (.ok mode', d')) :
    (Token.ofWritten d'.written).2 = 1 + source.count Byte.newline := by
  obtain ⟨f, hf, hwritten, -⟩ := writing_of_read h
  rw [hwritten]
  exact hf.line (by simp)

/-- What is read behind a newline is read as from the start of a text. -/
theorem behind_of_read (h : read .standard maxString .plain source {} = (.ok mode', d'))
    (hd : d.written = Byte.newline :: above) :
    ∃ e, read .standard maxString .plain source d = (.ok mode', e) ∧
      Behind above mode' d'.written e.written := by
  obtain ⟨f, hf, hwritten, hreads⟩ := writing_of_read h
  obtain ⟨e, hread, hwritten'⟩ := hreads d
  refine ⟨e, hread, ?_⟩
  rw [hwritten, hwritten', hd]
  exact (Behind.fresh (by simp)).writing hf

/-- The byte behind a byte matters only if both are slashes. -/
theorem plainStep_congr (h : b = Byte.slash → (next = some Byte.slash ↔ next' = some Byte.slash)) :
    plainStep .standard b next d = plainStep .standard b next' d := by
  have hiff : b = Byte.slash ∧ next = some Byte.slash ↔ b = Byte.slash ∧ next' = some Byte.slash :=
    and_congr_right h
  simp only [plainStep, hiff]

theorem step_congr (h : b = Byte.slash → (next = some Byte.slash ↔ next' = some Byte.slash)) :
    step .standard maxString mode b next d = step .standard maxString mode b next' d := by
  cases mode with
  | comment => rfl
  | plain => exact plainStep_congr h
  | quoted =>
    simp only [step]
    rw [plainStep_congr h]

/-- Outside comments and quotes only a quote leads into quotes. -/
theorem ne_slash_of_plainStep {held : Nat}
    (h : plainStep .standard b next d = (.ok (.quoted held), d')) : b ≠ Byte.slash := by
  rintro rfl
  have hclass : ByteTable.standard.classOf Byte.slash = .operator := by
    rw [standard_classOf]
    rfl
  simp only [plainStep, hclass] at h
  split at h
  · cases h
  · split at h <;> cases h

/-- A byte that leads into quotes or stands in them is read alike in front of any other byte. -/
theorem step_of_quoted {held : Nat}
    (h : step .standard maxString mode b next d = (.ok (.quoted held), d')) :
    step .standard maxString mode b next' d = (.ok (.quoted held), d') := by
  have hplain {d : Draft} (h : plainStep .standard b next d = (.ok (.quoted held), d')) :
      plainStep .standard b next' d = (.ok (.quoted held), d') := by
    rwa [← plainStep_congr fun hb => absurd hb (ne_slash_of_plainStep h)]
  cases mode with
  | plain => exact hplain h
  | comment =>
    simp only [step] at h
    split at h <;> cases h
  | quoted =>
    cases step_quoted_iff.mp h with
    | outside hends h => exact step_quoted_iff.mpr (.outside hends (hplain h))
    | content hline hdelimiter hquote hroom =>
      exact step_quoted_iff.mpr (.content hline hdelimiter hquote hroom)

/-- A source is read in two parts, unless it is cut between two slashes outside of quotes. -/
theorem read_append (h : read .standard maxString mode source d = (.ok mode', d'))
    (hrest : rest.head? = some Byte.slash → ∃ held, mode' = .quoted held) :
    read .standard maxString mode (source ++ rest) d =
      read .standard maxString mode' rest d' := by
  induction source generalizing mode d with
  | nil =>
    cases h
    rfl
  | cons b source ih =>
    obtain ⟨mode₁, d₁, hstep, hmore⟩ := read_cons_eq_ok.mp h
    have hsame : step .standard maxString mode b (source ++ rest).head? d = (.ok mode₁, d₁) := by
      cases source with
      | cons => exact hstep
      | nil =>
        cases hmore
        rw [List.head?_nil] at hstep
        by_cases hslash : rest.head? = some Byte.slash
        · obtain ⟨held, rfl⟩ := hrest hslash
          exact step_of_quoted hstep
        · rw [List.nil_append, ← hstep]
          exact step_congr fun _ => by simp [hslash]
    rw [List.cons_append, read, hsame]
    exact ih hmore

theorem step_newline : ∃ e : Draft, e.written = Byte.newline :: closed d.written ∧
    step .standard maxString mode Byte.newline next d = (.ok .plain, e) := by
  cases mode with
  | plain => exact ⟨d.endLine, endLine_written, rfl⟩
  | comment => exact ⟨d.skip.endLine, endLine_written, rfl⟩
  | quoted => exact ⟨d.endString.endLine, endLine_written, rfl⟩

theorem read_append_newline
    (h : read .standard maxString mode source d = (.ok mode', d')) (rest : List UInt8) :
    ∃ e : Draft, e.written = Byte.newline :: closed d'.written ∧
      read .standard maxString mode (source ++ Byte.newline :: rest) d =
        read .standard maxString .plain rest e := by
  obtain ⟨e, he, hstep⟩ := @step_newline maxString rest.head? mode' d'
  refine ⟨e, he, ?_⟩
  rw [read_append h fun hslash => absurd hslash (by simp [Byte.newline, Byte.slash]), read, hstep]

end Delimited

namespace Token

variable {found raised : List Token} {line lines : Nat} {segments : List (List UInt8)}

theorem collect_below {segment : List UInt8} :
    collect (found.map (below lines) ++ raised, line + lines) segment =
      ((collect (found, line) segment).1.map (below lines) ++ raised,
        (collect (found, line) segment).2 + lines) := by
  unfold collect
  split
  · simp only [Nat.add_right_comm]
  · rfl

/-- Segments below other lines give the same tokens, further down. -/
theorem foldl_collect_below :
    segments.foldl collect (found.map (below lines) ++ raised, line + lines) =
      ((segments.foldl collect (found, line)).1.map (below lines) ++ raised,
        (segments.foldl collect (found, line)).2 + lines) := by
  induction segments generalizing found line with
  | nil => rfl
  | cons segment segments ih =>
    rw [List.foldl_cons, List.foldl_cons, collect_below, ih]

end Token

namespace Delimited

variable {mode : Mode} {above written written' : List UInt8}

theorem Behind.ofWritten (h : Behind (closed above) mode written written') :
    (Token.ofWritten written').1 =
      (Token.ofWritten written).1.map (Token.below (Token.ofWritten above).2) ++
        (Token.ofWritten above).1 := by
  cases h with
  | apart =>
    rw [Token.ofWritten, List.reverse_append, List.reverse_cons, List.append_assoc,
      List.singleton_append, Token.segments_append_delimiter, List.foldl_append]
    have hbase : (Token.segments (Byte.newline :: closed above).reverse).foldl Token.collect ([], 1)
        = ((Token.ofWritten above).1, (Token.ofWritten above).2 + 1) := ofWritten_newline
    rw [hbase, Nat.add_comm]
    exact congrArg Prod.fst (@Token.foldl_collect_below [] _ _ _ _)
  | fresh => rw [ofWritten_newline]; rfl

theorem Behind.count (h : Behind (closed above) mode written written') :
    written'.count Byte.quote = written.count Byte.quote + above.count Byte.quote := by
  have hline : Byte.newline ≠ Byte.quote := by decide
  have hdelimiter : Byte.delimiter ≠ Byte.quote := by decide
  cases h <;> simp [count_closed, hline, hdelimiter]

end Delimited

/-- The outcome for a text with so many quotes and these tokens. -/
def verdict (limits : Limits) (quotes : Nat) (tokens : List Token) : Except Error (List Token) :=
  if quotes % 2 = 0 then
    match (tokens.drop limits.maxTokenCount).head? with
    | none => .ok tokens
    | some token =>
      .error (.tooManyTokens (limits.maxTokenCount + 1) limits.maxTokenCount token.line)
  else .error (.unbalancedQuotes quotes)

variable {limits : Limits} {source : List UInt8} {tokens : List Token} {e : Error}
  {mode : Delimited.Mode} {d : Delimited.Draft}

theorem tokenize_of_refused
    (h : Delimited.read .standard limits.maxStringLength .plain source {} = (.error e, d)) :
    tokenize limits source = .error e :=
  read_of_error (by rw [Delimited.ofSource_eq, h])

/-- A source that is read to its end is judged by the bytes written. -/
theorem tokenize_of_read
    (h : Delimited.read .standard limits.maxStringLength .plain source {} = (.ok mode, d)) :
    (tokenize limits source).map (·.tokens) =
      verdict limits (d.written.count Byte.quote) (Token.ofWritten d.written).1.reverse := by
  have hsource := @Delimited.ofSource_eq .standard limits.maxStringLength source
  simp only [h, Delimited.finish_written, Delimited.quoteCount_standard] at hsource
  unfold verdict
  split
  · next hquotes =>
    rw [if_pos hquotes] at hsource
    rw [tokenize, read_of_ok hsource, Token.result_split, Token.ofDelimited_reverse]
    cases ((Token.ofWritten d.written).1.reverse.drop limits.maxTokenCount).head? <;> rfl
  · next hquotes =>
    rw [if_neg hquotes] at hsource
    rw [tokenize, read_of_error hsource]
    rfl

/-- The tokens of a source are those of the bytes written when it was read to its end. -/
theorem tokenize_iff_read : (∃ metrics, tokenize limits source = .ok ⟨tokens, metrics⟩) ↔
    ∃ mode d, Delimited.read .standard limits.maxStringLength .plain source {} = (.ok mode, d) ∧
      d.written.count Byte.quote % 2 = 0 ∧ tokens = (Token.ofWritten d.written).1.reverse ∧
      tokens.length ≤ limits.maxTokenCount := by
  constructor
  · rintro ⟨metrics, h⟩
    obtain ⟨text, metrics', htext⟩ : ∃ text metrics,
        Delimited.ofSource .standard limits.maxStringLength source = (.ok text, metrics) := by
      cases hsource : Delimited.ofSource .standard limits.maxStringLength source with
      | mk result metrics =>
      cases result with
      | error e => cases (read_of_error hsource).symm.trans h
      | ok text => exact ⟨text, metrics, rfl⟩
    obtain ⟨heq, hlen⟩ := (tokenize_eq_ok_iff htext).mp h
    obtain rfl : Token.ofDelimited text = tokens := congrArg Tokens.tokens heq
    obtain ⟨mode, d, hread, hquotes, rfl⟩ := Delimited.ofSource_eq_ok_iff.mp ⟨metrics', htext⟩
    exact ⟨mode, d, hread, hquotes, Token.ofDelimited_reverse, hlen⟩
  · rintro ⟨mode, d, hread, hquotes, rfl, hlen⟩
    obtain ⟨metrics, htext⟩ := Delimited.ofSource_eq_ok_iff.mpr ⟨mode, d, hread, hquotes, rfl⟩
    exact ⟨metrics, (tokenize_eq_ok_iff htext).mpr ⟨rfl, hlen⟩⟩

/-- A newline is a full boundary: two accepted sources with a newline between them give the tokens
of the first and then those of the second, moved down by the lines of the first. -/
theorem tokenize_append_newline (limits : Limits) (above below : List UInt8)
    (first second : Tokens) (habove : tokenize limits above = .ok first)
    (hbelow : tokenize limits below = .ok second)
    (hroom : first.tokens.length + second.tokens.length ≤ limits.maxTokenCount) :
    ∃ metrics, tokenize limits (above ++ Byte.newline :: below) =
      .ok ⟨first.tokens ++ second.tokens.map (Token.below (1 + above.count Byte.newline)),
        metrics⟩ := by
  obtain ⟨mode₁, d₁, hread₁, hquotes₁, htokens₁, -⟩ := tokenize_iff_read.mp ⟨_, habove⟩
  obtain ⟨mode₂, d₂, hread₂, hquotes₂, htokens₂, -⟩ := tokenize_iff_read.mp ⟨_, hbelow⟩
  obtain ⟨d, hwritten, hread⟩ := Delimited.read_append_newline hread₁ below
  obtain ⟨e, hread', hbehind⟩ := Delimited.behind_of_read hread₂ hwritten
  apply tokenize_iff_read.mpr
  refine ⟨mode₂, e, hread.trans hread', ?_, ?_, ?_⟩
  · rw [hbehind.count]
    omega
  · rw [hbehind.ofWritten, Delimited.line_of_read hread₁, List.reverse_append, ← List.map_reverse,
      ← htokens₁, ← htokens₂]
  · simpa using hroom

/-- Two strings left open, the second over `<`. -/
def openSource : List UInt8 := [0x27, 0x61, 0x0A, 0x27, 0x62, 0x3C]

/-- `=1`, which no operator stands before, and `;` on a line of its own, in front of a comment. -/
def behindSource : List UInt8 := [0x3D, 0x31, 0x0A, 0x3B, 0x2F, 0x2F]

theorem tokenize_openSource_behindSource :
    ∃ metrics, tokenize .development (openSource ++ Byte.newline :: behindSource) =
      .ok ⟨[⟨"'a", 1⟩, ⟨"'b<", 2⟩, ⟨"=", 3⟩, ⟨"1", 3⟩, ⟨";", 4⟩], metrics⟩ :=
  tokenize_append_newline .development openSource behindSource
    ⟨[⟨"'a", 1⟩, ⟨"'b<", 2⟩], ⟨6, 2, 0, 0, 2, 8⟩⟩
    ⟨[⟨"=", 1⟩, ⟨"1", 1⟩, ⟨";", 2⟩], ⟨6, 2, 2, 1, 0, 8⟩⟩
    (by decide +kernel) (by decide +kernel) (by decide)

end Ttm.Source
