import Ttm.Proofs.Source.Forbidden

/-!
Two counts of lines. Delimiting a source counts up to the line that the next byte would stand on,
the lines of a file are counted up to that of its last byte.
-/
namespace Ttm.Source.Delimited

/-- The last byte stands on the line that is reached: there is one, and it is no newline. -/
def StopsInLine (source : List UInt8) : Prop := ∃ last ∈ source.getLast?, last ≠ Byte.newline

variable {t : ByteTable} {maxString : Nat} {mode mode' : Mode} {last : UInt8}
  {source before text : List UInt8} {d d' : Draft} {metrics : Metrics}

/-- Comments and string literals do not hide the lines they stand on. -/
theorem place_of_read (h : read t maxString mode source d = (.ok mode', d')) :
    d'.place = placeAfter d.place source := by
  induction source generalizing mode d with
  | nil =>
    cases h
    rfl
  | cons b rest ih =>
    obtain ⟨mode₁, d₁, hstep, hrest⟩ := read_cons_eq_ok.mp h
    rw [ih hrest, place_of_step hstep]
    rfl

theorem finish_place : (finish mode d).place = d.place := by
  cases mode <;> rfl

theorem lines_of_ofSource (h : ofSource t maxString source = (.ok text, metrics)) :
    metrics.lines = (placeAfter (1, 0) source).1 := by
  rw [ofSource_eq] at h
  split at h
  · cases h
  next mode d hread =>
  split at h
  · cases h
    have hplace := (@finish_place mode d).trans (place_of_read hread)
    exact congrArg Prod.fst hplace
  · cases h

theorem stopsInLine_concat : StopsInLine (before ++ [last]) ↔ last ≠ Byte.newline := by
  simp [StopsInLine]

/-- Delimiting a source counts the line that the next byte would stand on. This is the last line of
the file if the last byte stands on it, and otherwise one line more than the file has. -/
theorem countLines_of_ofSource (t : ByteTable) (maxString : Nat) (source text : List UInt8)
    (metrics : Metrics) (h : ofSource t maxString source = (.ok text, metrics)) :
    metrics.lines = (placeAfter (1, 0) source).1 ∧
      (StopsInLine source → countLines ⟨source.toArray⟩ = metrics.lines) ∧
      (¬ StopsInLine source → countLines ⟨source.toArray⟩ + 1 = metrics.lines) := by
  have hlines := lines_of_ofSource h
  refine ⟨hlines, ?_⟩
  rw [hlines, placeAfter_start]
  rcases List.eq_nil_or_concat source with rfl | ⟨before, last, rfl⟩
  · exact ⟨fun ⟨last, hlast, _⟩ => (Option.not_mem_none last hlast).elim, fun _ => rfl⟩
  · rw [List.concat_eq_append, stopsInLine_concat, countLines_concat, List.count_append,
      List.count_singleton]
    by_cases hlast : last = Byte.newline
    · simp [hlast, Nat.add_comm]
    · simp [hlast, Nat.add_comm]

/-- A newline at the end leads to a second line, on which nothing stands. -/
theorem countLines_of_ofSource_endedLine :
    ofSource .standard 255 [0x61, 0x0A] = (.ok [0x61, 0x1F, 0x0A], ⟨2, 2, 0, 0, 0, 3⟩) ∧
      ¬ StopsInLine [0x61, 0x0A] ∧ countLines ⟨#[0x61, 0x0A]⟩ + 1 = 2 := by
  have h : ofSource .standard 255 [0x61, 0x0A] = (.ok [0x61, 0x1F, 0x0A], ⟨2, 2, 0, 0, 0, 3⟩) := by
    decide +kernel
  have hends : ¬ StopsInLine [0x61, 0x0A] := by
    rw [show [0x61, 0x0A] = [0x61] ++ [Byte.newline] from rfl, stopsInLine_concat]
    exact not_not_intro rfl
  exact ⟨h, hends, (countLines_of_ofSource .standard 255 [0x61, 0x0A] _ _ h).2.2 hends⟩

end Ttm.Source.Delimited
