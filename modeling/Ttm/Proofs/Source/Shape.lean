import Mathlib.Data.List.Chain
import Ttm.Proofs.Source.Enclosed
import Ttm.Proofs.Source.Forbidden

/-!
The shape of delimited text: delimiters stand alone and not in front, each newline is a segment,
and the quote that opens a run of the source begins one.
-/
namespace Ttm.Source.Delimited

/-- One of two bytes side by side is no delimiter. -/
def Spaced (a b : UInt8) : Prop := ¬ (a = Byte.delimiter ∧ b = Byte.delimiter)

/-- The shape that the bytes written keep, the last one first. -/
structure Tidy (written : List UInt8) : Prop where
  first : ∀ b ∈ written.getLast?, b ≠ Byte.delimiter
  spaced : written.IsChain Spaced
  lines : ∀ segment ∈ Token.segments written, Byte.newline ∈ segment → segment = [Byte.newline]

/-- The shape of the text that a source is delimited to. -/
structure Shaped (maxString : Nat) (source text : List UInt8) : Prop where
  first : ∀ b ∈ text.head?, b ≠ Byte.delimiter
  spaced : text.IsChain Spaced
  lines : ∀ segment ∈ Token.segments text, Byte.newline ∈ segment → segment = [Byte.newline]
  newlines : text.count Byte.newline = source.count Byte.newline
  /-- The bytes of a run stand in the text behind as many quotes as in the source, and nothing
  stands in front of them in their segment. -/
  opening : ∀ above r below, regions maxString source = above ++ .run r :: below →
    ∃ front back, text = front ++ (Region.run r).marks.map Mark.byte ++ back ∧
      (∀ last ∈ front.getLast?, last = Byte.delimiter) ∧
      front.count Byte.quote = (above.flatMap Region.marks).count .quote

/-- A region of a source is read: what is behind it is read on to the same end, its quotes are
written, and a run is copied as a whole. -/
structure Passed (maxString : Nat) (region : Region) (written rest : List UInt8) (d : Draft)
    (final : List UInt8) : Prop where
  read : ∃ mode d', read .standard maxString .plain rest d = (.ok mode, d') ∧ d'.written = final
  quotes : d.written.count Byte.quote = written.count Byte.quote + region.marks.count .quote
  run : ∀ r, region = .run r →
    d.written = ((Region.run r).marks.map Mark.byte).reverse ++ closed written

variable {maxString held room : Nat} {b : UInt8} {next : Option UInt8} {mode mode' : Mode}
  {source rest written text : List UInt8} {d d' : Draft} {f : List UInt8 → List UInt8}
  {p : UInt8 → Bool} {region : Region} {above below : List Region} {r : Run} {metrics : Metrics}

theorem tidy_nil : Tidy [] := by
  refine ⟨nofun, .nil, ?_⟩
  intro segment hsegment hline
  obtain rfl := List.mem_singleton.mp hsegment
  cases hline

theorem Tidy.delimiter (h : Tidy written) (hlast : ∃ last ∈ written.head?, last ≠ Byte.delimiter) :
    Tidy (Byte.delimiter :: written) := by
  obtain ⟨last, hmem, hne⟩ := hlast
  obtain ⟨before, rfl⟩ := List.head?_eq_some_iff.mp hmem
  refine ⟨?_, ?_, ?_⟩
  · rw [List.getLast?_cons_cons]
    exact h.first
  · exact List.isChain_cons_cons.mpr ⟨fun hboth => hne hboth.2, h.spaced⟩
  · exact List.forall_mem_cons.mpr ⟨nofun, h.lines⟩

theorem Tidy.closed (h : Tidy written) : Tidy (closed written) := by
  cases written with
  | nil => exact h
  | cons last before =>
    rw [Delimited.closed]
    split
    · exact h
    · next hlast => exact h.delimiter ⟨last, rfl, hlast⟩

/-- A byte other than a delimiter keeps the shape if its segment does. -/
theorem Tidy.write (h : Tidy written) (hb : b ≠ Byte.delimiter)
    (hline : ∀ last before, Token.segments written = last :: before →
      Byte.newline ∈ b :: last → b :: last = [Byte.newline]) : Tidy (b :: written) := by
  refine ⟨fun a ha => ?_, h.spaced.cons fun _ _ hboth => hb hboth.1, ?_⟩
  · rw [List.getLast?_cons] at ha
    cases hlast : written.getLast? with
    | none =>
      rw [hlast] at ha
      cases ha
      exact hb
    | some last =>
      rw [hlast] at ha
      cases ha
      exact h.first _ hlast
  · obtain ⟨last, before, hw, heq⟩ := @segments_cons_of_ne b written hb
    have hlines := h.lines
    rw [hw] at hlines
    rw [heq]
    exact List.forall_mem_cons.mpr ⟨hline last before hw, (List.forall_mem_cons.mp hlines).2⟩

/-- A byte behind a delimiter is a segment, be it a newline or not. -/
theorem Tidy.apart (h : Tidy written) (hb : b ≠ Byte.delimiter) :
    Tidy (b :: Delimited.closed written) := by
  obtain ⟨before, hclosed⟩ := @segments_closed written
  refine h.closed.write hb fun last rest hlast hline => ?_
  obtain ⟨rfl, -⟩ := List.cons_eq_cons.mp (hclosed.symm.trans hlast)
  rw [List.mem_singleton.mp hline]

/-- A byte joins a segment that ends otherwise than by a newline. -/
theorem Tidy.join (h : Tidy written) (hinked : Inked written) (hb : b ≠ Byte.delimiter)
    (hline : b ≠ Byte.newline) : Tidy (b :: written) := by
  obtain ⟨last, hmem, hnewline, hdelimiter⟩ := hinked
  obtain ⟨before, rfl⟩ := List.head?_eq_some_iff.mp hmem
  obtain ⟨tail, rest, -, heq⟩ := @segments_cons_of_ne last before hdelimiter
  refine h.write hb fun segment behind hsegment hin => ?_
  obtain ⟨rfl, -⟩ := List.cons_eq_cons.mp (heq.symm.trans hsegment)
  have hlast := h.lines _ (heq ▸ List.mem_cons_self) (List.mem_of_ne_of_mem hline.symm hin)
  exact absurd (List.cons_eq_cons.mp hlast).1 hnewline

/-- A byte that joins a byte of `p` joins none that ends a segment. -/
theorem Tidy.joined (h : Tidy written) (hp : p Byte.newline = false)
    (hp' : p Byte.delimiter = false) (hb : b ≠ Byte.delimiter) (hline : b ≠ Byte.newline) :
    Tidy (b :: Delimited.joined p written) := by
  rw [Delimited.joined]
  split
  · next hany => exact h.join (inked_of_any hp hp' hany) hb hline
  · exact h.apart hb

/-- Every byte keeps the shape. -/
theorem Wrote.tidy (h : Wrote b mode mode' f) (hw : Tidy written)
    (hinked : ∀ held, mode = .quoted held → Inked written) : Tidy (f written) := by
  cases h with
  | kept => exact hw
  | cut => exact hw.closed
  | newline hline => exact hw.apart (by decide)
  | written p hline hdelimiter hp hp' => exact hw.joined hp hp' hdelimiter hline
  | separated hline hdelimiter =>
    exact (hw.apart hdelimiter).delimiter ⟨b, rfl, hdelimiter⟩
  | quoted hline hdelimiter => exact hw.join (hinked _ rfl) hdelimiter hline

/-- Every newline is written, and no other one. -/
theorem Wrote.newlines (h : Wrote b mode mode' f) :
    (f written).count Byte.newline = written.count Byte.newline + [b].count Byte.newline := by
  have hclosed (written : List UInt8) :
      (closed written).count Byte.newline = written.count Byte.newline :=
    count_closed_of_ne (by decide)
  have hdelimiter : Byte.delimiter ≠ Byte.newline := by decide
  have hother (hline : b ≠ Byte.newline) : [b].count Byte.newline = 0 :=
    List.count_eq_zero_of_not_mem fun hmem => hline (List.mem_singleton.mp hmem).symm
  cases h with
  | kept hline => rw [hother hline, id, Nat.add_zero]
  | cut hline => rw [hother hline, hclosed, Nat.add_zero]
  | newline hline => rw [hline, List.count_cons_self, hclosed, List.count_singleton_self]
  | written p hline =>
    rw [hother hline, List.count_cons_of_ne hline, Nat.add_zero, joined]
    split
    · rfl
    · exact hclosed written
  | separated hline =>
    rw [hother hline, List.count_cons_of_ne hdelimiter, List.count_cons_of_ne hline, hclosed,
      Nat.add_zero]
  | quoted hline => rw [hother hline, List.count_cons_of_ne hline, Nat.add_zero]

theorem suffix_closed : written <:+ closed written := by
  cases written with
  | nil => exact List.suffix_rfl
  | cons last before =>
    rw [closed]
    split
    · exact List.suffix_rfl
    · exact List.suffix_cons _ _

theorem Wrote.suffix (h : Wrote b mode mode' f) : written <:+ f written := by
  cases h with
  | kept => exact List.suffix_rfl
  | cut => exact suffix_closed
  | newline => exact suffix_closed.trans (List.suffix_cons _ _)
  | written p =>
    refine List.IsSuffix.trans ?_ (List.suffix_cons _ _)
    rw [joined]
    split
    · exact List.suffix_rfl
    · exact suffix_closed
  | separated =>
    exact (suffix_closed.trans (List.suffix_cons _ _)).trans (List.suffix_cons _ _)
  | quoted => exact List.suffix_cons _ _

/-- What is written stays written. -/
theorem suffix_of_read (h : read .standard maxString mode source d = (.ok mode', d')) :
    d.written <:+ d'.written := by
  refine read_preserves (I := fun _ d' => d.written <:+ d'.written) ?_ h List.suffix_rfl
  intro b next mode mode' d₁ d₂ hstep hd
  obtain ⟨f, hf, hwritten, -⟩ := wrote_of_step hstep
  rw [hwritten]
  exact hd.trans hf.suffix

theorem tidy_of_read (h : read .standard maxString .plain source {} = (.ok mode', d')) :
    Tidy d'.written := by
  refine (read_preserves
    (I := fun mode d => Tidy d.written ∧ ∀ held, mode = .quoted held → Inked d.written)
    ?_ h ⟨tidy_nil, nofun⟩).1
  intro b next mode mode' d₁ d₂ hstep hd
  obtain ⟨f, hf, hwritten, -⟩ := wrote_of_step hstep
  rw [hwritten]
  exact ⟨hf.tidy hd.1 hd.2, hf.inked⟩

theorem newlines_of_read (h : read .standard maxString mode source d = (.ok mode', d')) :
    d'.written.count Byte.newline = d.written.count Byte.newline + source.count Byte.newline := by
  induction source generalizing mode d with
  | nil =>
    cases h
    rfl
  | cons b rest ih =>
    obtain ⟨mode₁, d₁, hstep, hrest⟩ := read_cons_eq_ok.mp h
    obtain ⟨f, hf, hwritten, -⟩ := wrote_of_step hstep
    rw [ih hrest, hwritten, hf.newlines, Nat.add_assoc, ← List.count_append, List.singleton_append]

/-- A run is copied, closed or not, and what is behind it is read as from outside of quotes. -/
theorem exists_behind_run (h : read .standard maxString (.quoted held) source d = (.ok mode', d')) :
    ∃ d₁ mode₂ d₂, d₁.written =
        ((Run.split (maxString - held) source).1.marks.map Mark.byte).reverse ++ d.written ∧
      read .standard maxString .plain (Run.split (maxString - held) source).2 d₁ = (.ok mode₂, d₂) ∧
      d₂.written = d'.written := by
  induction source generalizing held d with
  | nil =>
    cases h
    rw [Run.split_nil]
    exact ⟨_, .plain, _, rfl, rfl, rfl⟩
  | cons b rest ih =>
    obtain ⟨mode₁, d₁, hstep, hrest⟩ := read_cons_eq_ok.mp h
    cases step_quoted_iff.mp hstep with
    | outside hends hplain =>
      rw [Run.split_end (ne_quote_of_ends hends)
        (hends.imp_right fun hroom => Nat.sub_eq_zero_of_le hroom.2.2)]
      exact ⟨d.endString, mode', d', rfl, read_cons_eq_ok.mpr ⟨mode₁, d₁, hplain, hrest⟩, rfl⟩
    | closing hb =>
      rw [hb, Run.split_quote]
      rw [hb] at hrest
      exact ⟨_, mode', d', rfl, hrest, rfl⟩
    | content hline hdelimiter hquote hroom =>
      have hone : maxString - held = maxString - (held + 1) + 1 := by omega
      obtain ⟨e₁, mode₂, e₂, hwritten, hread, hsame⟩ := ih hrest
      rw [hone, Run.split_content hquote hline]
      refine ⟨e₁, mode₂, e₂, ?_, hread, hsame⟩
      rw [hwritten]
      simp [Run.marks, Mark.byte]

theorem count_quote_run (hin : ∀ c ∈ r.content, Run.inside c) :
    ((Region.run r).marks.map Mark.byte).count Byte.quote = (Region.run r).marks.count .quote := by
  have hbytes : Byte.quote ∉ r.content := fun hmem => (Run.inside_iff.mp (hin _ hmem)).1 rfl
  have hmarks : Mark.quote ∉ r.content.map Mark.quoted := by simp
  rw [Region.marks, Run.marks, List.map_cons, List.map_append, Mark.bytes_quoted, Mark.byte,
    List.count_cons_self, List.count_cons_self, List.count_append, List.count_append,
    List.count_eq_zero_of_not_mem hbytes, List.count_eq_zero_of_not_mem hmarks]
  split <;> rfl

theorem inside_split : ∀ c ∈ (Run.split room source).1.content, Run.inside c := by
  intro c hc
  have hmem : c ∈ source.takeWhile Run.inside := by
    simp only [Run.split] at hc
    split at hc <;> exact List.mem_of_mem_take hc
  exact List.mem_takeWhile_imp hmem

theorem mode_of_plainStep (h : plainStep .standard b next d = (.ok mode, d'))
    (hcomment : ¬ (b = Byte.slash ∧ next = some Byte.slash)) (hquote : b ≠ Byte.quote) :
    mode = .plain := by
  have hwrites := writes_of_plainStep h
  generalize d'.written = written at hwrites
  cases hwrites with
  | comment hb hnext => exact (hcomment ⟨hb, hnext⟩).elim
  | quote hb => exact (hquote hb).elim
  | nothing | joined | apart => rfl

theorem passed_comment (hnext : rest.head? = some Byte.slash)
    (h : read .standard maxString .plain (Byte.slash :: rest) d = (.ok mode', d')) :
    ∃ d₁, Passed maxString (.comment ((Byte.slash :: rest).takeWhile (· != Byte.newline))) d.written
      (rest.dropWhile (· != Byte.newline)) d₁ d'.written := by
  obtain ⟨tail, rfl⟩ := List.head?_eq_some_iff.mp hnext
  obtain ⟨mode, d₁, hwritten, hmode, hread⟩ := @read_comment_run maxString tail
    d.advance.beginComment.advance.skip
  rw [read_comment, hread] at h
  refine ⟨d₁, ⟨?_, ?_, nofun⟩⟩
  · change ∃ mode₂ d₂, read .standard maxString .plain (tail.dropWhile (· != Byte.newline)) d₁ =
      (.ok mode₂, d₂) ∧ d₂.written = d'.written
    rcases hmode with rfl | ⟨-, hnil⟩
    · exact ⟨mode', d', h, rfl⟩
    · -- the source ends in the comment
      rw [hnil] at h ⊢
      cases h
      exact ⟨.plain, _, rfl, rfl⟩
  · rw [hwritten, List.count_eq_zero_of_not_mem (a := Mark.quote) (by simp [Region.marks])]
    rfl

theorem passed_run (h : read .standard maxString .plain (Byte.quote :: rest) d = (.ok mode', d')) :
    ∃ d₁, Passed maxString (.run (Run.split maxString rest).1) d.written
      (Run.split maxString rest).2 d₁ d'.written := by
  rw [read_quote] at h
  obtain ⟨d₁, mode₂, d₂, hwritten, hread, hsame⟩ := exists_behind_run h
  rw [Nat.sub_zero] at hwritten hread
  have hrun : d₁.written =
      ((Region.run (Run.split maxString rest).1).marks.map Mark.byte).reverse ++
        closed d.written := by
    rw [hwritten, write_written, delimit_written]
    simp [Region.marks, Mark.byte]
  refine ⟨d₁, ⟨⟨mode₂, d₂, hread, hsame⟩, ?_, ?_⟩⟩
  · rw [hrun, List.count_append, List.count_reverse, count_quote_run inside_split, count_closed,
      Nat.add_comm]
  · rintro r ⟨⟩
    exact hrun

theorem passed_code (hcomment : ¬ (b = Byte.slash ∧ rest.head? = some Byte.slash))
    (hquote : b ≠ Byte.quote)
    (h : read .standard maxString .plain (b :: rest) d = (.ok mode', d')) :
    ∃ d₁, Passed maxString (.code b) d.written rest d₁ d'.written := by
  obtain ⟨mode₁, d₁, hstep, hrest⟩ := read_cons_eq_ok.mp h
  obtain rfl := mode_of_plainStep hstep hcomment hquote
  exact ⟨d₁, ⟨⟨mode', d', hrest, rfl⟩, count_of_plainStep hstep hquote, nofun⟩⟩

/-- Reading goes through a source region by region. -/
theorem exists_passed (h : read .standard maxString .plain source d = (.ok mode', d'))
    (hregions : regions maxString source = region :: below) :
    ∃ rest d₁, regions maxString rest = below ∧
      Passed maxString region d.written rest d₁ d'.written := by
  fun_cases regions maxString source with
  | case1 => simp [regions] at hregions
  | case2 b rest hcomment =>
    rw [regions, if_pos hcomment] at hregions
    obtain ⟨rfl, hbelow⟩ := List.cons_eq_cons.mp hregions
    obtain ⟨rfl, hnext⟩ := hcomment
    obtain ⟨d₁, hpassed⟩ := passed_comment hnext h
    exact ⟨_, d₁, hbelow, hpassed⟩
  | case3 rest hcomment =>
    rw [regions, if_neg hcomment, if_pos rfl] at hregions
    obtain ⟨rfl, hbelow⟩ := List.cons_eq_cons.mp hregions
    obtain ⟨d₁, hpassed⟩ := passed_run h
    exact ⟨_, d₁, hbelow, hpassed⟩
  | case4 b rest hcomment hquote =>
    rw [regions, if_neg hcomment, if_neg hquote] at hregions
    obtain ⟨rfl, hbelow⟩ := List.cons_eq_cons.mp hregions
    obtain ⟨d₁, hpassed⟩ := passed_code hcomment hquote h
    exact ⟨_, d₁, hbelow, hpassed⟩

/-- The quote that opens a run begins a segment. -/
theorem exists_opening (h : read .standard maxString .plain source d = (.ok mode', d'))
    (hregions : regions maxString source = above ++ .run r :: below) :
    ∃ front back, d'.written =
        back ++ (((Region.run r).marks.map Mark.byte).reverse ++ closed front) ∧
      (closed front).count Byte.quote =
        d.written.count Byte.quote + (above.flatMap Region.marks).count .quote := by
  induction above generalizing source d mode' d' with
  | nil =>
    obtain ⟨rest, d₁, -, hpassed⟩ := exists_passed h hregions
    obtain ⟨mode₂, d₂, hread, hsame⟩ := hpassed.read
    obtain ⟨back, hback⟩ := suffix_of_read hread
    refine ⟨d.written, back, ?_, count_closed⟩
    rw [← hsame, ← hback, hpassed.run r rfl]
  | cons region above ih =>
    obtain ⟨rest, d₁, hbelow, hpassed⟩ := exists_passed h hregions
    obtain ⟨mode₂, d₂, hread, hsame⟩ := hpassed.read
    obtain ⟨front, back, hwritten, hcount⟩ := ih hread hbelow
    refine ⟨front, back, hsame.symm.trans hwritten, ?_⟩
    rw [hcount, hpassed.quotes, List.flatMap_cons, List.count_append, Nat.add_assoc]

theorem Tidy.reverse (h : Tidy written) :
    ∀ segment ∈ Token.segments written.reverse, Byte.newline ∈ segment →
      segment = [Byte.newline] := by
  intro segment hsegment hline
  rw [Token.segments_reverse, List.mem_reverse, List.mem_map] at hsegment
  obtain ⟨backwards, hmem, rfl⟩ := hsegment
  rw [h.lines backwards hmem (List.mem_reverse.mp hline)]
  rfl

/-- Whatever a source holds and wherever the limit cuts its strings, the text it is delimited to
has this shape. -/
theorem ofSource_shaped (maxString : Nat) (source text : List UInt8) (metrics : Metrics)
    (h : ofSource .standard maxString source = (.ok text, metrics)) :
    Shaped maxString source text := by
  obtain ⟨mode, d, hread, -, rfl⟩ := ofSource_eq_ok_iff.mp ⟨metrics, h⟩
  have htidy := tidy_of_read hread
  constructor
  case first =>
    rw [List.head?_reverse]
    exact htidy.first
  case spaced =>
    exact List.isChain_reverse.mpr (htidy.spaced.imp fun _ _ hne hboth => hne hboth.symm)
  case lines => exact htidy.reverse
  case newlines => rw [List.count_reverse, newlines_of_read hread, List.count_nil, Nat.zero_add]
  case opening =>
    intro above r below hregions
    obtain ⟨front, back, hwritten, hcount⟩ := exists_opening hread hregions
    refine ⟨(closed front).reverse, back.reverse, ?_, ?_, ?_⟩
    · rw [hwritten]
      simp
    · rw [List.getLast?_reverse]
      exact closed_closed
    · rw [List.count_reverse, hcount, List.count_nil, Nat.zero_add]

/-- A run that the limit cuts, one that the line ends, and a glued `==` in front of them. -/
theorem ofSource_shaped_cutRuns :
    ofSource .standard 1 [0x78, 0x3D, 0x3D, 0x27, 0x61, 0x62, 0x27, 0x0A] =
        (.ok [0x78, 0x1F, 0x3D, 0x3D, 0x1F, 0x27, 0x61, 0x62, 0x1F, 0x27, 0x1F, 0x0A],
          ⟨8, 2, 0, 0, 2, 12⟩) ∧
      Shaped 1 [0x78, 0x3D, 0x3D, 0x27, 0x61, 0x62, 0x27, 0x0A]
        [0x78, 0x1F, 0x3D, 0x3D, 0x1F, 0x27, 0x61, 0x62, 0x1F, 0x27, 0x1F, 0x0A] := by
  have h : ofSource .standard 1 [0x78, 0x3D, 0x3D, 0x27, 0x61, 0x62, 0x27, 0x0A] =
      (.ok [0x78, 0x1F, 0x3D, 0x3D, 0x1F, 0x27, 0x61, 0x62, 0x1F, 0x27, 0x1F, 0x0A],
        ⟨8, 2, 0, 0, 2, 12⟩) := by
    decide +kernel
  exact ⟨h, ofSource_shaped 1 _ _ _ h⟩

end Ttm.Source.Delimited
