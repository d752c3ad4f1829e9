import Ttm.Proofs.Source.Lines

/-!
What reading a source notes. A source that cannot be delimited leaves one note, of the error and at
its position. The settings select among the notes, and nothing else depends on them.
-/
namespace Ttm.Source

def Note.isFailure : Note → Bool
  | .failed .. => true
  | _ => false

/-- Notes of what went well. -/
def Quiet (notes : List Note) : Prop := ∀ n ∈ notes, n.isFailure = false

/-- A note as the settings would have it, if they ask for it. -/
def Note.asked? (settings : LexicalSettings) : Note → Option Note
  | .token t => if settings.traceTokens then some (.token t) else none
  | .delimited metrics _ => some (.delimited metrics settings.detailedMetrics)
  | n => some n

/-- The settings that ask for every note. -/
def allNotes : LexicalSettings where
  traceTokens := true

namespace Delimited

variable {t : ByteTable} {maxString : Nat} {b : UInt8} {next : Option UInt8} {mode mode' : Mode}
  {source text : List UInt8} {d d' : Draft} {e : Error}

theorem notes_of_plainStep (h : plainStep t b next d = (.ok mode, d')) : d'.notes = d.notes := by
  unfold plainStep at h
  split at h
  · cases h
    grind [Draft.endLine, Draft.write, Draft.delimit]
  split at h
  · cases h
    rfl
  · split at h <;> cases h <;>
      grind [Draft.advance, Draft.write, Draft.delimit, Draft.writeText, Draft.writeOperator,
        Draft.writeSeparator, Draft.writeSubstitute, Draft.skip]

theorem notes_of_step (h : step t maxString mode b next d = (.ok mode', d')) :
    d'.notes = d.notes := by
  cases mode with
  | plain => exact notes_of_plainStep h
  | comment =>
    simp only [step] at h
    split at h
    · cases h
      grind [Draft.endLine, Draft.write, Draft.delimit, Draft.skip]
    · cases h
      rfl
  | quoted held =>
    have hend : d.endString.notes = d.notes := rfl
    simp only [step] at h
    split at h
    · rw [notes_of_plainStep h, hend]
    split at h
    · cases h
    split at h
    · cases h
      rfl
    split at h
    · rw [notes_of_plainStep h, hend]
    · cases h
      rfl

theorem notes_of_read (h : read t maxString mode source d = (.ok mode', d')) :
    d'.notes = d.notes :=
  read_preserves (I := fun _ d' => d'.notes = d.notes)
    (fun hstep hd => (notes_of_step hstep).trans hd) h rfl

/-- What is read to a byte that is refused leaves a note of it. -/
theorem failed_of_read (h : read t maxString mode source d = (.error e, d')) :
    ∃ words facts, d'.notes = .failed e words e.position facts :: d.notes := by
  induction source generalizing mode d with
  | nil => cases h
  | cons b rest ih =>
    rw [read] at h
    split at h
    · next hstep =>
      obtain ⟨words, facts, hnotes⟩ := ih h
      exact ⟨words, facts, hnotes.trans (by rw [notes_of_step hstep])⟩
    · next hstep =>
      cases h
      obtain ⟨d₀, -, hnotes, hrefuse⟩ := refuse_of_step hstep
      cases hrefuse
      exact ⟨_, _, congrArg (_ :: ·) hnotes⟩

/-- Where a source is delimited there is nothing to tell. -/
theorem notes_of_delimit (h : (delimit t maxString source).result = .ok text) :
    (delimit t maxString source).notes = [] := by
  unfold delimit at h ⊢
  rcases hread : read t maxString .plain source {} with ⟨e | mode, d⟩
  · rw [hread] at h
    cases h
  · simp only [hread] at h ⊢
    split at h
    · next heven =>
      have hnotes : (finish mode d).notes = d.notes := by cases mode <;> rfl
      rw [if_pos heven, hnotes, notes_of_read hread]
      rfl
    · cases h

/-- A source that cannot be delimited is told at the position of its error. -/
theorem failed_of_delimit (h : (delimit t maxString source).result = .error e) :
    ∃ words facts, (delimit t maxString source).notes = [.failed e words e.position facts] := by
  unfold delimit at h ⊢
  rcases hread : read t maxString .plain source {} with ⟨e' | mode, d⟩
  · rw [hread] at h
    cases h
    obtain ⟨words, facts, hnotes⟩ := failed_of_read hread
    refine ⟨words, facts, ?_⟩
    simp only [hnotes]
    rfl
  · simp only [hread] at h ⊢
    split at h
    · cases h
    · next hodd =>
      cases h
      have hnotes : (finish mode d).notes = d.notes := by cases mode <;> rfl
      rw [if_neg hodd]
      simp only [Draft.note, hnotes, notes_of_read hread]
      exact ⟨_, _, rfl⟩

end Delimited

/-- How reading a source goes, whatever is asked for. -/
inductive Course
  | refused (e : Error) (words : String) (facts : List (String × String))
  | excess (metrics : Metrics) (before : List Token) (max line : Nat)
  | complete (metrics : Metrics) (tokens : List Token)

/-- The outcome, and the notes that are asked for on the way. -/
def Course.reading (settings : LexicalSettings) : Course → Reading
  | refused e words facts => ⟨.error e, [.failed e words e.position facts]⟩
  | excess metrics before max line =>
    ⟨.error (.tooManyTokens (max + 1) max line),
      .delimited metrics settings.detailedMetrics ::
        (Token.traced settings.traceTokens before ++ [Token.excessNote max line])⟩
  | complete metrics tokens =>
    ⟨.ok ⟨tokens, metrics⟩,
      .delimited metrics settings.detailedMetrics ::
        (Token.traced settings.traceTokens tokens ++ [.split tokens.length])⟩

variable {limits : Limits} {settings : LexicalSettings} {source : List UInt8} {tokens : List Token}
  {e : Error} {found : Tokens}

theorem exists_course (limits : Limits) (source : List UInt8) :
    ∃ c : Course, ∀ settings, read limits settings source = c.reading settings := by
  cases hresult : (Delimited.delimit .standard limits.maxStringLength source).result with
  | error e =>
    obtain ⟨words, facts, hnotes⟩ := Delimited.failed_of_delimit hresult
    refine ⟨.refused e words facts, fun settings => ?_⟩
    simp only [read, hresult, hnotes, Course.reading]
  | ok text =>
    have hnotes := Delimited.notes_of_delimit hresult
    generalize hmetrics : (Delimited.delimit .standard limits.maxStringLength source).metrics = m
    rcases Token.length_le_or_excess limits.maxTokenCount (Token.ofDelimited text) with
      hle | ⟨before, token, behind, hexcess, hbefore⟩
    · refine ⟨.complete m (Token.ofDelimited text), fun settings => ?_⟩
      simp only [read, hresult, hnotes, hmetrics, Token.split_of_length_le hle, Course.reading,
        List.nil_append, List.cons_append]
    · refine ⟨.excess m before limits.maxTokenCount token.line, fun settings => ?_⟩
      simp only [read, hresult, hnotes, hmetrics, Token.split_of_excess hexcess hbefore,
        Course.reading, List.nil_append]

theorem quiet_traced (trace : Bool) : Quiet (Token.traced trace tokens) := by
  unfold Token.traced
  split
  · exact List.forall_mem_map.mpr fun _ _ => rfl
  · exact List.forall_mem_nil _

theorem quiet_of_reading (h : (read limits settings source).result = .ok found) :
    Quiet (read limits settings source).notes := by
  obtain ⟨c, hc⟩ := exists_course limits source
  rw [hc] at h ⊢
  cases c with
  | refused | excess => cases h
  | complete metrics tokens =>
    refine List.forall_mem_cons.mpr ⟨rfl, List.forall_mem_append.mpr ⟨quiet_traced _, ?_⟩⟩
    exact List.forall_mem_singleton.mpr rfl

/-- A reading that fails notes its error last, and no other one. -/
theorem failed_of_reading (h : (read limits settings source).result = .error e) :
    ∃ before words position facts, Quiet before ∧
      (read limits settings source).notes = before ++ [.failed e words position facts] := by
  obtain ⟨c, hc⟩ := exists_course limits source
  rw [hc] at h ⊢
  cases c with
  | refused e words facts =>
    cases h
    exact ⟨[], words, e.position, facts, List.forall_mem_nil _, rfl⟩
  | excess metrics before max line =>
    cases h
    exact ⟨_ :: Token.traced settings.traceTokens before, _, _, _,
      List.forall_mem_cons.mpr ⟨rfl, quiet_traced _⟩, rfl⟩
  | complete => cases h

theorem filterMap_traced : (Token.traced true tokens).filterMap (Note.asked? settings) =
    Token.traced settings.traceTokens tokens := by
  have htokens : (Token.traced true tokens).filterMap (Note.asked? settings) =
      tokens.filterMap fun t => if settings.traceTokens then some (.token t) else none :=
    List.filterMap_map ..
  rw [htokens, Token.traced]
  cases settings.traceTokens with
  | true => simp
  | false => simp

/-- The settings select among the notes of a reading, and nothing else depends on them. -/
theorem read_asked (settings : LexicalSettings) : read limits settings source =
    { read limits allNotes source with
      notes := (read limits allNotes source).notes.filterMap (Note.asked? settings) } := by
  obtain ⟨c, hc⟩ := exists_course limits source
  rw [hc, hc]
  cases c with
  | refused e words facts => rfl
  | excess metrics before max line =>
    simp only [Course.reading, allNotes, List.filterMap_cons, Note.asked?, List.filterMap_append,
      filterMap_traced]
    rfl
  | complete metrics tokens =>
    simp only [Course.reading, allNotes, List.filterMap_cons, Note.asked?, List.filterMap_append,
      filterMap_traced]
    rfl

/-- The tokens of a source are the same under all settings. -/
theorem result_read (settings : LexicalSettings) :
    (read limits settings source).result = tokenize limits source := by
  rw [tokenize, read_asked, read_asked {}]

end Ttm.Source
