import Ttm.Proofs.Source.Boundary
import Ttm.SourceFile

/-!
The lines of a source. A byte that is refused and a token each have a line, and it is one of those
that are counted in a file.
-/
namespace Ttm

theorem foldlM_loop_bytes {α : Type} (f : α → UInt8 → α) (bytes : ByteArray) (i j : Nat) (a : α)
    (h : j + i = bytes.size) :
    (ByteArray.foldlM.loop (m := Id) (fun a b => pure (f a b)) bytes bytes.size (Nat.le_refl _) i j
      a).run = (bytes.data.toList.drop j).foldl f a := by
  induction i generalizing j a with
  | zero =>
    have hlength : bytes.data.toList.length = j := h.symm
    rw [ByteArray.foldlM.loop, List.drop_of_length_le (Nat.le_of_eq hlength)]
    split <;> rfl
  | succ i ih =>
    have hj : j < bytes.size := by omega
    have hlength : j < bytes.data.toList.length := hj
    rw [ByteArray.foldlM.loop, dif_pos hj, List.drop_eq_getElem_cons hlength, List.foldl_cons]
    exact ih (j + 1) _ (by omega)

theorem foldl_bytes {α : Type} (f : α → UInt8 → α) (a : α) (source : List UInt8) :
    ByteArray.foldl f a ⟨source.toArray⟩ = source.foldl f a := by
  rw [ByteArray.foldl, ByteArray.foldlM, dif_pos (Nat.le_refl _)]
  exact foldlM_loop_bytes f ⟨source.toArray⟩ _ 0 a (Nat.zero_add _)

theorem foldl_newlines (n : Nat) (source : List UInt8) :
    source.foldl (fun n b => if b == 0x0A then n + 1 else n) n = n + source.count Byte.newline := by
  induction source generalizing n with
  | nil => rfl
  | cons b source ih =>
    rw [List.foldl_cons, ih, List.count_cons, Byte.newline]
    split <;> omega

/-- The last byte ends the last line, if it is a newline, and stands on it otherwise. -/
theorem countLines_concat (source : List UInt8) (b : UInt8) :
    countLines ⟨(source ++ [b]).toArray⟩ = source.count Byte.newline + 1 := by
  have hsize : ByteArray.size ⟨(source ++ [b]).toArray⟩ = source.length + 1 := by
    simp [ByteArray.size]
  have hlast : ByteArray.get! ⟨(source ++ [b]).toArray⟩ source.length = b := by
    simp [ByteArray.get!]
  have hempty : ByteArray.isEmpty ⟨(source ++ [b]).toArray⟩ = false := by
    simp [ByteArray.isEmpty, hsize]
  rw [countLines, hempty, foldl_bytes, foldl_newlines, hsize, Nat.add_sub_cancel, hlast,
    List.count_append, List.count_singleton]
  by_cases hb : b = Byte.newline
  · simp [hb, Byte.newline]
  · simp [hb, show ¬ b = 0x0A from hb]

namespace Source

/-- One of the lines of a source, the first of which is 1. -/
def HasLine (source : List UInt8) (line : Nat) : Prop :=
  1 ≤ line ∧ line ≤ countLines ⟨source.toArray⟩

namespace Delimited

/-- Line and column of the byte read last. -/
def Draft.place (d : Draft) : Nat × Nat := (d.line, d.column)

/-- The place of a byte behind another place. -/
def placeBehind (b : UInt8) (place : Nat × Nat) : Nat × Nat :=
  if b = Byte.newline then (place.1 + 1, 0) else (place.1, place.2 + 1)

variable {t : ByteTable} {maxString : Nat} {b : UInt8} {next : Option UInt8} {mode mode' : Mode}
  {source : List UInt8} {d d' : Draft} {e : Error}

@[simp]
theorem write_place : (d.write b).place = d.place := rfl

@[simp]
theorem skip_place : d.skip.place = d.place := rfl

@[simp]
theorem endString_place : d.endString.place = d.place := rfl

theorem advance_place (h : b ≠ Byte.newline) : d.advance.place = placeBehind b d.place :=
  (if_neg h).symm

@[simp]
theorem delimit_place : d.delimit.place = d.place := by
  unfold Draft.delimit
  split
  · rfl
  · split <;> rfl

theorem endLine_place : d.endLine.place = placeBehind Byte.newline d.place := rfl

@[simp]
theorem writeText_place : (d.writeText t b).place = d.place := by
  unfold Draft.writeText
  split
  · rfl
  · split <;> rfl

@[simp]
theorem writeOperator_place : (d.writeOperator b).place = d.place := by
  unfold Draft.writeOperator
  split <;> simp

@[simp]
theorem writeSeparator_place : (d.writeSeparator b).place = d.place := by
  simp [Draft.writeSeparator]

@[simp]
theorem writeSubstitute_place : (d.writeSubstitute b).place = d.place := by
  unfold Draft.writeSubstitute
  split
  · rfl
  · split <;> rfl

theorem place_of_plainStep (h : plainStep t b next d = (.ok mode, d')) :
    d'.place = placeBehind b d.place := by
  unfold plainStep at h
  split at h
  · next hline =>
    cases h
    rw [hline, endLine_place]
  next hline =>
  have hadvance : d.advance.place = placeBehind b d.place := advance_place hline
  split at h
  · cases h
    exact hadvance
  · split at h <;> cases h <;> simp [hadvance]

theorem refuse_of_plainStep (h : plainStep t b next d = (.error e, d')) :
    refuse b d = (.error e, d') := by
  unfold plainStep at h
  split at h
  · cases h
  split at h
  · cases h
  · split at h
    case h_2 => exact h
    all_goals cases h

/-- Every byte that is read moves the place on in the same way. -/
theorem place_of_step (h : step t maxString mode b next d = (.ok mode', d')) :
    d'.place = placeBehind b d.place := by
  cases mode with
  | plain => exact place_of_plainStep h
  | comment =>
    simp only [step] at h
    split at h
    · next hline =>
      cases h
      rw [hline, endLine_place, skip_place]
    · next hline =>
      cases h
      rw [skip_place, advance_place hline]
  | quoted held =>
    simp only [step] at h
    split at h
    · rw [place_of_plainStep h, endString_place]
    next hline =>
    split at h
    · cases h
    split at h
    · cases h
      rw [endString_place, write_place, advance_place hline]
    split at h
    · rw [place_of_plainStep h, endString_place]
    · cases h
      rw [write_place, advance_place hline]

/-- A byte is refused at its own place and behind the notes so far, also where it ends a literal. -/
theorem refuse_of_step (h : step t maxString mode b next d = (.error e, d')) :
    ∃ d₀, d₀.place = d.place ∧ d₀.notes = d.notes ∧ refuse b d₀ = (.error e, d') := by
  cases mode with
  | plain => exact ⟨d, rfl, rfl, refuse_of_plainStep h⟩
  | comment =>
    simp only [step] at h
    split at h <;> cases h
  | quoted held =>
    simp only [step] at h
    split at h
    · exact ⟨d.endString, rfl, rfl, refuse_of_plainStep h⟩
    split at h
    · exact ⟨d, rfl, rfl, h⟩
    split at h
    · cases h
    split at h
    · exact ⟨d.endString, rfl, rfl, refuse_of_plainStep h⟩
    · cases h

theorem error_of_step (h : step t maxString mode b next d = (.error e, d')) :
    e = .forbiddenCharacter b d.line (d.column + 1) := by
  obtain ⟨d₀, hplace, -, hrefuse⟩ := refuse_of_step h
  obtain ⟨hline, hcolumn⟩ := Prod.mk.inj hplace
  cases hrefuse
  rw [hline, hcolumn]

/-- A source is refused at one of its bytes, on the line of this byte. -/
theorem error_of_read (h : read .standard maxString mode source d = (.error e, d')) :
    ∃ before b behind column, source = before ++ b :: behind ∧
      e = .forbiddenCharacter b (d.line + before.count Byte.newline) column := by
  induction source generalizing mode d with
  | nil => cases h
  | cons b rest ih =>
    rw [read] at h
    split at h
    · next mode₁ d₁ hstep =>
      obtain ⟨before, c, behind, column, rfl, rfl⟩ := ih h
      refine ⟨b :: before, c, behind, column, rfl, ?_⟩
      have hline : d₁.line = (placeBehind b d.place).1 := congrArg Prod.fst (place_of_step hstep)
      rw [hline, placeBehind, List.count_cons]
      by_cases hb : b = Byte.newline
      · simp only [hb, if_true, BEq.rfl]
        congr 1
        show d.line + 1 + _ = _
        omega
      · simp [hb, Draft.place]
    · next e' d₁ hstep =>
      cases h
      obtain rfl := error_of_step hstep
      exact ⟨[], b, rest, _, rfl, rfl⟩

/-- What is refused before a newline is refused in the same way with the newline behind it. -/
theorem read_append_newline_error (h : read .standard maxString mode source d = (.error e, d'))
    (rest : List UInt8) :
    read .standard maxString mode (source ++ Byte.newline :: rest) d = (.error e, d') := by
  induction source generalizing mode d with
  | nil => cases h
  | cons b source ih =>
    have hnext : step .standard maxString mode b (source ++ Byte.newline :: rest).head? d =
        step .standard maxString mode b source.head? d := by
      cases source with
      | nil => exact step_congr fun _ => by simp [Byte.newline, Byte.slash]
      | cons => rfl
    rw [List.cons_append, read, hnext]
    rw [read] at h
    split at h
    · next mode₁ d₁ hstep => exact ih h
    · cases h
      rfl

end Delimited

/-- The tokens found last stand on the last lines, none behind the current one. -/
structure Token.Descends (found : List Token × Nat) : Prop where
  lines : found.1.Pairwise (·.line ≥ ·.line)
  reached : 1 ≤ found.2
  within : ∀ token ∈ found.1, 1 ≤ token.line ∧ token.line ≤ found.2

variable {limits : Limits} {source behind written : List UInt8} {t : Tokens} {e : Error}
  {found : List Token × Nat} {segments : List (List UInt8)} {b : UInt8} {maxString : Nat}
  {mode : Delimited.Mode} {d : Delimited.Draft}

theorem Token.Descends.collect {segment : List UInt8} (h : Descends found) :
    Descends (Token.collect found segment) := by
  unfold Token.collect
  split
  · refine ⟨h.lines, Nat.le_add_right_of_le h.reached, fun token ht => ?_⟩
    exact (h.within token ht).imp_right Nat.le_add_right_of_le
  · exact ⟨List.pairwise_cons.mpr ⟨fun token ht => (h.within token ht).2, h.lines⟩, h.reached,
      List.forall_mem_cons.mpr ⟨⟨h.reached, Nat.le_refl _⟩, h.within⟩⟩

theorem Token.Descends.foldl (h : Descends found) :
    Descends (segments.foldl Token.collect found) := by
  induction segments generalizing found with
  | nil => exact h
  | cons segment segments ih => exact ih h.collect

theorem Token.descends_ofWritten : Token.Descends (Token.ofWritten written) :=
  Descends.foldl ⟨List.Pairwise.nil, Nat.le_refl _, fun _ h => by cases h⟩

theorem lines_of_tokenize (h : tokenize limits source = .ok t) :
    t.tokens.Pairwise (·.line ≤ ·.line) := by
  obtain ⟨mode, d, -, -, htokens, -⟩ := tokenize_iff_read.mp ⟨_, h⟩
  rw [htokens, List.pairwise_reverse]
  exact Token.descends_ofWritten.lines

/-- Every byte of a source stands on one of its lines. -/
theorem hasLine_byte : HasLine (source ++ b :: behind) (1 + source.count Byte.newline) := by
  refine ⟨Nat.le_add_right _ _, ?_⟩
  rcases List.eq_nil_or_concat behind with rfl | ⟨behind, last, rfl⟩
  · rw [countLines_concat]
    omega
  · rw [List.concat_eq_append, ← List.cons_append, ← List.append_assoc, countLines_concat,
      List.count_append]
    omega

/-- Tokens stand on lines of their source, on the last one too only if it is not empty. -/
theorem hasLine_of_read (h : Delimited.read .standard maxString .plain source {} = (.ok mode, d)) :
    ∀ token ∈ (Token.ofWritten d.written).1, HasLine source token.line := by
  have hwithin (written : List UInt8) := (@Token.descends_ofWritten written).within
  rcases List.eq_nil_or_concat source with rfl | ⟨before, last, rfl⟩
  · cases h
    intro token htoken
    cases htoken
  rw [List.concat_eq_append] at h ⊢
  intro token htoken
  refine ⟨(hwithin _ token htoken).1, ?_⟩
  rw [countLines_concat, Nat.add_comm]
  by_cases hlast : last = Byte.newline
  · subst hlast
    cases hbefore : Delimited.read .standard maxString .plain before {} with
    | mk result d₁ =>
    cases result with
    | error e =>
      rw [Delimited.read_append_newline_error hbefore] at h
      cases h
    | ok mode₁ =>
      obtain ⟨e, hwritten, hread⟩ := Delimited.read_append_newline hbefore []
      rw [hread] at h
      cases h
      rw [hwritten, Delimited.ofWritten_newline] at htoken
      rw [← Delimited.line_of_read hbefore]
      exact (hwithin _ token htoken).2
  · have hcount : [last].count Byte.newline = 0 := by simpa [List.count_singleton] using hlast
    have hline := Delimited.line_of_read h
    rw [List.count_append, hcount, Nat.add_zero] at hline
    rw [← hline]
    exact (hwithin _ token htoken).2

theorem hasLine_of_tokenize (h : tokenize limits source = .ok t) :
    ∀ token ∈ t.tokens, HasLine source token.line := by
  obtain ⟨mode, d, hread, -, htokens, -⟩ := tokenize_iff_read.mp ⟨_, h⟩
  intro token htoken
  rw [htokens, List.mem_reverse] at htoken
  exact hasLine_of_read hread token htoken

/-- A source that is refused at a line has this line. -/
theorem hasLine_of_refused (h : tokenize limits source = .error e) :
    ∀ line ∈ e.line, HasLine source line := by
  intro line hline
  cases hread : Delimited.read .standard limits.maxStringLength .plain source {} with
  | mk result d =>
  cases result with
  | error cause =>
    obtain rfl := Except.error.inj ((tokenize_of_refused hread).symm.trans h)
    obtain ⟨before, b, behind, column, rfl, rfl⟩ := Delimited.error_of_read hread
    cases hline
    exact hasLine_byte
  | ok mode =>
    have hverdict := tokenize_of_read hread
    rw [h, verdict] at hverdict
    split at hverdict
    · split at hverdict
      · cases hverdict
      · next token hexcess =>
        cases hverdict
        cases hline
        have htoken := List.mem_of_mem_drop (List.mem_of_mem_head? hexcess)
        exact hasLine_of_read hread token (List.mem_reverse.mp htoken)
    · cases hverdict
      cases hline

end Source
end Ttm
