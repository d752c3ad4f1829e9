import Mathlib.Data.List.Induction
import Ttm.Proofs.Source.Region

/-!
A source is refused at the first byte that offends. A source in which no byte does is refused just
when an odd number of its quoted runs is left open.
-/
namespace Ttm.Source
namespace Delimited

/-- The marks ahead of a reader. -/
def marksAhead (maxString : Nat) : Mode → List UInt8 → List Mark
  | .plain, source => marks maxString source
  | .comment, source => (source.takeWhile (· != Byte.newline)).map .comment ++
    marks maxString (source.dropWhile (· != Byte.newline))
  | .quoted held, source => (Run.split (maxString - held) source).1.marks ++
    marks maxString (Run.split (maxString - held) source).2

/-- The byte read does not offend, and a quote is written for the quotes of a run alone. -/
structure Allowed (maxString : Nat) (mode mode' : Mode) (b : UInt8) (rest : List UInt8)
    (d d' : Draft) (m : Mark) : Prop where
  marks : marksAhead maxString mode (b :: rest) = m :: marksAhead maxString mode' rest
  offends : m.offends = false
  count : d'.written.count Byte.quote = d.written.count Byte.quote + [m].count .quote

/-- The place behind some bytes. -/
def placeAfter (place : Nat × Nat) (before : List UInt8) : Nat × Nat :=
  before.foldl (fun place b => placeBehind b place) place

variable {maxString held : Nat} {b : UInt8} {next : Option UInt8} {mode mode' : Mode}
  {source rest : List UInt8} {d d' : Draft} {e : Error} {m : Mark}

theorem marksAhead_newline : marksAhead maxString .plain (Byte.newline :: rest) =
    .code Byte.newline :: marksAhead maxString .plain rest :=
  marks_code (by decide) fun h => absurd h.1 (by decide)

theorem marksAhead_comment (h : b ≠ Byte.newline) : marksAhead maxString .comment (b :: rest) =
    .comment b :: marksAhead maxString .comment rest := by
  have hin : (b != Byte.newline) = true := bne_iff_ne.mpr h
  rw [marksAhead, List.takeWhile_cons_of_pos (p := (· != Byte.newline)) hin,
    List.dropWhile_cons_of_pos (p := (· != Byte.newline)) hin]
  rfl

theorem marksAhead_end (hquote : b ≠ Byte.quote) (hends : b = Byte.newline ∨ maxString ≤ held) :
    marksAhead maxString (.quoted held) (b :: rest) = marksAhead maxString .plain (b :: rest) := by
  simp only [marksAhead, Run.split_end hquote (hends.imp_right Nat.sub_eq_zero_of_le)]
  rfl

theorem marksAhead_quote : marksAhead maxString (.quoted held) (Byte.quote :: rest) =
    .quote :: marksAhead maxString .plain rest := by
  simp only [marksAhead, Run.split_quote]
  rfl

theorem marksAhead_content (hquote : b ≠ Byte.quote) (hline : b ≠ Byte.newline)
    (hroom : held < maxString) : marksAhead maxString (.quoted held) (b :: rest) =
      .quoted b :: marksAhead maxString (.quoted (held + 1)) rest := by
  have hone : maxString - held = maxString - (held + 1) + 1 := by omega
  simp only [marksAhead, hone, Run.split_content hquote hline]
  rfl

theorem ne_of_forbidden (h : ByteTable.standard.classOf b = .forbidden) {c : UInt8}
    (hc : ByteTable.standard.classOf c ≠ .forbidden) : b ≠ c := by
  rintro rfl
  exact hc h

theorem not_forbidden (h : b = Byte.newline ∨ b = Byte.slash ∨ b = Byte.quote) :
    ByteTable.standard.classOf b ≠ .forbidden := by
  rw [standard_classOf]
  rcases h with rfl | rfl | rfl <;> decide

theorem forbidden_delimiter : ByteTable.standard.classOf Byte.delimiter = .forbidden := by
  rw [standard_classOf]
  decide

theorem plainStep_of_forbidden (h : ByteTable.standard.classOf b = .forbidden) :
    plainStep .standard b next d = refuse b d := by
  have hline : b ≠ Byte.newline := ne_of_forbidden h (not_forbidden (.inl rfl))
  have hslash : b ≠ Byte.slash := ne_of_forbidden h (not_forbidden (.inr (.inl rfl)))
  simp [plainStep, h, hline, hslash]

theorem forbidden_of_plainStep (h : plainStep .standard b next d = (.error e, d')) :
    ByteTable.standard.classOf b = .forbidden := by
  unfold plainStep at h
  split at h
  · cases h
  split at h
  · cases h
  · split at h
    case h_2 hclass => exact hclass
    all_goals cases h

theorem count_cons_closed {written : List UInt8} (h : b ≠ Byte.quote) :
    (b :: closed written).count Byte.quote = written.count Byte.quote := by
  rw [List.count_cons_of_ne h, count_closed]

theorem count_of_plainStep (h : plainStep .standard b next d = (.ok mode, d'))
    (hquote : b ≠ Byte.quote) : d'.written.count Byte.quote = d.written.count Byte.quote := by
  have hdelimiter : Byte.delimiter ≠ Byte.quote := by decide
  unfold plainStep at h
  split at h
  · next hline =>
    cases h
    rw [endLine_written, ← hline, count_cons_closed hquote]
  split at h
  · cases h
    rfl
  split at h
  case h_1 =>
    cases h
    rw [writeText_written]
    split
    · exact List.count_cons_of_ne hquote
    · exact count_cons_closed hquote
  case h_2 => cases h
  case h_3 =>
    cases h
    rfl
  case h_4 =>
    cases h
    rw [writeOperator_written]
    split
    · exact List.count_cons_of_ne hquote
    · exact count_cons_closed hquote
  case h_5 hclass => exact (hquote (classOf_eq_quote.mp hclass)).elim
  case h_6 =>
    cases h
    rw [writeSeparator_written, List.count_cons_of_ne hdelimiter]
    exact count_cons_closed hquote
  case h_7 hclass =>
    cases h
    rw [substitute_eq_delimiter hclass, writeSubstitute_written]
    exact count_closed

theorem allowed_of_plainStep (h : plainStep .standard b rest.head? d = (.ok mode, d')) :
    ∃ m, Allowed maxString .plain mode b rest d d' m := by
  have hclass : ByteTable.standard.classOf b ≠ .forbidden := by
    intro hclass
    rw [plainStep_of_forbidden hclass] at h
    cases h
  have hwrites := writes_of_plainStep h
  generalize hwritten : d'.written = written at hwrites
  cases hwrites with
  | comment hb hnext =>
    subst hb
    exact ⟨.comment Byte.slash, marks_comment hnext, rfl, count_of_plainStep h (by decide)⟩
  | quote hb =>
    subst hb
    refine ⟨.quote, marks_quote, rfl, ?_⟩
    rw [hwritten, List.count_cons_self, count_closed, List.count_singleton_self]
  | nothing hquote hcomment | joined hquote hcomment | apart _ hquote hcomment =>
    exact ⟨.code b, marks_code hquote hcomment, beq_eq_false_iff_ne.mpr hclass,
      count_of_plainStep h hquote⟩

theorem ne_quote_of_ends
    (hends : b = Byte.newline ∨ b ≠ Byte.delimiter ∧ b ≠ Byte.quote ∧ maxString ≤ held) :
    b ≠ Byte.quote := by
  rcases hends with rfl | hends
  · decide
  · exact hends.2.1

theorem allowed_of_step (h : step .standard maxString mode b rest.head? d = (.ok mode', d')) :
    ∃ m, Allowed maxString mode mode' b rest d d' m := by
  cases mode with
  | plain => exact allowed_of_plainStep h
  | comment =>
    simp only [step] at h
    split at h
    · next hline =>
      subst hline
      cases h
      refine ⟨.code Byte.newline, marksAhead_newline,
        beq_eq_false_iff_ne.mpr (not_forbidden (.inl rfl)), ?_⟩
      rw [endLine_written]
      exact count_cons_closed (by decide)
    · next hline =>
      cases h
      exact ⟨.comment b, marksAhead_comment hline, rfl, rfl⟩
  | quoted held =>
    cases step_quoted_iff.mp h with
    | outside hends hplain =>
      have hmarks : marksAhead maxString (.quoted held) (b :: rest) = _ :=
        marksAhead_end (ne_quote_of_ends hends) (hends.imp_right (·.2.2))
      obtain ⟨m, hplain, hoffends, hcount⟩ := allowed_of_plainStep hplain
      exact ⟨m, hmarks.trans hplain, hoffends, hcount⟩
    | closing hb =>
      subst hb
      exact ⟨.quote, marksAhead_quote, rfl, List.count_cons_self⟩
    | content hline hdelimiter hquote hroom =>
      exact ⟨.quoted b, marksAhead_content hquote hline hroom, beq_eq_false_iff_ne.mpr hdelimiter,
        List.count_cons_of_ne hquote⟩

theorem offends_of_plainStep (h : plainStep .standard b rest.head? d = (.error e, d')) :
    ∃ m behind, marksAhead maxString .plain (b :: rest) = m :: behind ∧ m.offends := by
  have hclass := forbidden_of_plainStep h
  have hquote : b ≠ Byte.quote := ne_of_forbidden hclass (not_forbidden (.inr (.inr rfl)))
  have hslash : b ≠ Byte.slash := ne_of_forbidden hclass (not_forbidden (.inr (.inl rfl)))
  exact ⟨.code b, _, marks_code hquote fun hcomment => hslash hcomment.1, beq_iff_eq.mpr hclass⟩

/-- What is refused offends. -/
theorem offends_of_step (h : step .standard maxString mode b rest.head? d = (.error e, d')) :
    ∃ m behind, marksAhead maxString mode (b :: rest) = m :: behind ∧ m.offends := by
  cases mode with
  | plain => exact offends_of_plainStep h
  | comment =>
    simp only [step] at h
    split at h <;> cases h
  | quoted held =>
    cases step_quoted_iff.mp h with
    | outside hends hplain =>
      rw [marksAhead_end (ne_quote_of_ends hends) (hends.imp_right (·.2.2))]
      exact offends_of_plainStep hplain
    | refused hb =>
      -- with no room left, the delimiter stands outside the run, where it is forbidden too
      subst hb
      rcases Nat.lt_or_ge held maxString with hroom | hroom
      · exact ⟨_, _, marksAhead_content (by decide) (by decide) hroom, rfl⟩
      · have hcode : marks maxString (Byte.delimiter :: rest) = _ :: _ :=
          marks_code (by decide) fun hcomment => absurd hcomment.1 (by decide)
        rw [marksAhead_end (by decide) (Or.inr hroom)]
        exact ⟨_, _, hcode, beq_iff_eq.mpr forbidden_delimiter⟩

theorem marksAhead_nil : marksAhead maxString mode [] = [] := by
  cases mode with
  | plain | comment => exact marks_nil
  | quoted held => simp [marksAhead, Run.split_nil, Run.marks]

theorem bytes_marksAhead : (marksAhead maxString mode source).map Mark.byte = source := by
  cases mode with
  | plain => exact bytes_marks maxString source
  | comment =>
    rw [marksAhead, List.map_append, Mark.bytes_comment, bytes_marks,
      List.takeWhile_append_dropWhile]
  | quoted held => rw [marksAhead, List.map_append, bytes_marks, Run.bytes_split]

/-- What is read to its end is free of offences. -/
theorem allowed_of_read (h : read .standard maxString mode source d = (.ok mode', d')) :
    (∀ m ∈ marksAhead maxString mode source, m.offends = false) ∧
      d'.written.count Byte.quote =
        d.written.count Byte.quote + (marksAhead maxString mode source).count .quote := by
  induction source generalizing mode d with
  | nil =>
    cases h
    simp [marksAhead_nil]
  | cons b rest ih =>
    obtain ⟨mode₁, d₁, hstep, hrest⟩ := read_cons_eq_ok.mp h
    obtain ⟨m, hmarks, hoffends, hcount⟩ := allowed_of_step hstep
    obtain ⟨hall, hcounts⟩ := ih hrest
    rw [hmarks]
    refine ⟨List.forall_mem_cons.mpr ⟨hoffends, hall⟩, ?_⟩
    rw [hcounts, hcount, Nat.add_assoc, ← List.count_append, List.singleton_append]

/-- What breaks off does so at the first offence, and at its place. -/
theorem first_of_read (h : read .standard maxString mode source d = (.error e, d')) :
    ∃ before m behind, marksAhead maxString mode source = before ++ m :: behind ∧ m.offends ∧
      (∀ m ∈ before, m.offends = false) ∧
      e = .forbiddenCharacter m.byte (placeAfter d.place (before.map Mark.byte)).1
        ((placeAfter d.place (before.map Mark.byte)).2 + 1) := by
  induction source generalizing mode d with
  | nil => cases h
  | cons b rest ih =>
    have hbytes := @bytes_marksAhead maxString mode (b :: rest)
    rw [read] at h
    split at h
    · next mode₁ d₁ hstep =>
      obtain ⟨n, hmarks, hoffends, -⟩ := allowed_of_step hstep
      obtain ⟨before, m, behind, hrest, hm, hbefore, he⟩ := ih h
      rw [hmarks, List.map_cons, List.cons.injEq] at hbytes
      refine ⟨n :: before, m, behind, by rw [hmarks, hrest]; rfl, hm,
        List.forall_mem_cons.mpr ⟨hoffends, hbefore⟩, ?_⟩
      rw [he, List.map_cons, hbytes.1, place_of_step hstep]
      rfl
    · next e' d₁ hstep =>
      cases h
      obtain ⟨m, behind, hmarks, hm⟩ := offends_of_step hstep
      rw [hmarks, List.map_cons, List.cons.injEq] at hbytes
      refine ⟨[], m, behind, hmarks, hm, by simp, ?_⟩
      rw [error_of_step hstep, hbytes.1]
      rfl

/-- The lines that are ended, and how many bytes of the next one are read. -/
theorem placeAfter_start (before : List UInt8) : placeAfter (1, 0) before =
    (1 + before.count Byte.newline, (before.reverse.takeWhile (· != Byte.newline)).length) := by
  induction before using List.reverseRecOn with
  | nil => rfl
  | append_singleton before b ih =>
    have hlast : placeAfter (1, 0) (before ++ [b]) = placeBehind b (placeAfter (1, 0) before) :=
      List.foldl_append
    rw [hlast, ih, placeBehind, List.count_append, List.reverse_concat]
    by_cases hb : b = Byte.newline
    · simp [hb, Nat.add_assoc]
    · simp [hb]

end Delimited

/-- The outcome that the marks of a source call for. -/
structure Judged (maxString : Nat) (source : List UInt8) (result : Except Error (List UInt8)) :
    Prop where
  refused : (∃ b line column, result = .error (.forbiddenCharacter b line column)) ↔
    ∃ i, OffendsAt maxString source i
  /-- The first byte that offends is named, on the line behind the newlines before it and at its
  distance from the last of them. -/
  first : ∀ b line column, result = .error (.forbiddenCharacter b line column) →
    ∃ before behind, source = before ++ b :: behind ∧
      OffendsAt maxString source before.length ∧
      (∀ i < before.length, ¬ OffendsAt maxString source i) ∧
      line = 1 + before.count Byte.newline ∧
      column = (before.reverse.takeWhile (· != Byte.newline)).length + 1
  unbalanced : (∃ quotes, result = .error (.unbalancedQuotes quotes)) ↔
    (∀ i, ¬ OffendsAt maxString source i) ∧ openRuns maxString source % 2 = 1
  accepted : (∃ text, result = .ok text) ↔
    (∀ i, ¬ OffendsAt maxString source i) ∧ openRuns maxString source % 2 = 0

variable {maxString : Nat} {source : List UInt8} {before behind : List Mark} {m : Mark}

theorem offendsAt_of_append (h : marks maxString source = before ++ m :: behind)
    (hm : m.offends) : OffendsAt maxString source before.length :=
  ⟨m, by simp [h], hm⟩

theorem not_offendsAt_of_append (h : marks maxString source = before ++ behind)
    (hbefore : ∀ m ∈ before, m.offends = false) {i : Nat} (hi : i < before.length) :
    ¬ OffendsAt maxString source i := by
  rintro ⟨m, hmem, hm⟩
  rw [h, List.getElem?_append_left hi, Option.mem_def] at hmem
  rw [hbefore m (List.mem_of_getElem? hmem)] at hm
  cases hm

theorem not_offendsAt (h : ∀ m ∈ marks maxString source, m.offends = false) (i : Nat) :
    ¬ OffendsAt maxString source i := by
  rintro ⟨m, hmem, hm⟩
  rw [h m (List.mem_of_getElem? hmem)] at hm
  cases hm

theorem Judged.of_offence (h : marks maxString source = before ++ m :: behind) (hm : m.offends)
    (hbefore : ∀ m ∈ before, m.offends = false) {line column : Nat}
    (hline : line = 1 + (before.map Mark.byte).count Byte.newline)
    (hcolumn : column =
      ((before.map Mark.byte).reverse.takeWhile (· != Byte.newline)).length + 1) :
    Judged maxString source (.error (.forbiddenCharacter m.byte line column)) := by
  have hat : OffendsAt maxString source before.length := offendsAt_of_append h hm
  have hsource : source = before.map Mark.byte ++ m.byte :: behind.map Mark.byte := by
    rw [← List.map_cons, ← List.map_append, ← h, bytes_marks]
  constructor
  case refused => exact ⟨fun _ => ⟨_, hat⟩, fun _ => ⟨_, _, _, rfl⟩⟩
  case first =>
    rintro b line column ⟨⟩
    refine ⟨_, _, hsource, by rwa [List.length_map], fun i hi => ?_, hline, hcolumn⟩
    rw [List.length_map] at hi
    exact not_offendsAt_of_append h hbefore hi
  case unbalanced => exact ⟨nofun, fun hnone => (hnone.1 _ hat).elim⟩
  case accepted => exact ⟨nofun, fun hnone => (hnone.1 _ hat).elim⟩

theorem Judged.of_unbalanced (h : ∀ i, ¬ OffendsAt maxString source i)
    (hopen : openRuns maxString source % 2 = 1) (quotes : Nat) :
    Judged maxString source (.error (.unbalancedQuotes quotes)) := by
  constructor
  case refused => exact ⟨nofun, fun ⟨i, hi⟩ => (h i hi).elim⟩
  case first => nofun
  case unbalanced => exact ⟨fun _ => ⟨h, hopen⟩, fun _ => ⟨_, rfl⟩⟩
  case accepted => exact ⟨nofun, fun heven => by omega⟩

theorem Judged.of_ok (h : ∀ i, ¬ OffendsAt maxString source i)
    (hopen : openRuns maxString source % 2 = 0) (text : List UInt8) :
    Judged maxString source (.ok text) := by
  constructor
  case refused => exact ⟨nofun, fun ⟨i, hi⟩ => (h i hi).elim⟩
  case first => nofun
  case unbalanced => exact ⟨nofun, fun hodd => by omega⟩
  case accepted => exact ⟨fun _ => ⟨h, hopen⟩, fun _ => ⟨_, rfl⟩⟩

/-- A source is refused just when a byte offends, and at the first one that does. Otherwise its
open runs decide. -/
theorem Delimited.ofSource_judged (maxString : Nat) (source : List UInt8) :
    Judged maxString source (ofSource .standard maxString source).1 := by
  cases hread : read .standard maxString .plain source {} with
  | mk outcome d =>
  cases outcome with
  | error e =>
    obtain ⟨before, m, behind, hmarks, hm, hbefore, he⟩ := first_of_read hread
    have hplace : placeAfter (Draft.place {}) (before.map Mark.byte) = _ := placeAfter_start _
    rw [ofSource_eq, hread, he, hplace]
    exact .of_offence hmarks hm hbefore rfl rfl
  | ok mode =>
    obtain ⟨hall, hcount⟩ := allowed_of_read hread
    have hquotes : quoteCount .standard (finish mode d).written % 2 =
        openRuns maxString source % 2 := by
      rw [quoteCount_standard, finish_written, hcount, ← count_quote_marks, List.count_nil,
        Nat.zero_add]
      rfl
    simp only [ofSource_eq, hread]
    split
    · next heven => exact .of_ok (not_offendsAt hall) (hquotes ▸ heven) _
    · next hodd => exact .of_unbalanced (not_offendsAt hall) (by omega) _

end Ttm.Source
