import Ttm.Compile
import Ttm.Proofs.Postfix.Note
import Ttm.Proofs.Program.Raise
import Ttm.Proofs.Source.Note

/-! What the settings do to a compilation: they decide what is traced, and nothing else. -/
namespace Ttm.Compile

open Log (Event)

/-- The settings decide which counts the event on a delimited source carries. -/
def withoutCounts (e : Event) : Event :=
  if e.code = .preprocessed then { e with context := [] } else e

/-- What is reported besides traces: no debug events, and no counts of a delimited source. -/
def untraced (events : List Event) : List Event :=
  (events.filter (·.level ≠ .debug)).map withoutCounts

/-- Two outcomes that differ in traces only. -/
structure SameButTraces {α : Type} (o o' : Outcome α) : Prop where
  result : o.2 = o'.2
  events : untraced o.1 = untraced o'.1

variable {events later : List Event}

theorem untraced_append : untraced (events ++ later) = untraced events ++ untraced later := by
  rw [untraced, List.filter_append, List.map_append, untraced, untraced]

section

variable {ν : Type} {event : ν → Event} {notes : List ν}

/-- Notes that turn into others, or into none, where the event stays the same but for traces. -/
theorem untraced_filterMap {asked : ν → Option ν}
    (h : ∀ n, untraced ((asked n).toList.map event) = untraced [event n]) :
    untraced ((notes.filterMap asked).map event) = untraced (notes.map event) := by
  induction notes with
  | nil => rfl
  | cons n notes ih =>
    have hcons : (n :: notes).filterMap asked = (asked n).toList ++ notes.filterMap asked := by
      rw [List.filterMap_cons]
      cases asked n <;> rfl
    rw [hcons, List.map_append, untraced_append, h, ih]
    exact untraced_append.symm

/-- What is not asked for is a trace. -/
theorem untraced_filter {asked : ν → Bool}
    (h : ∀ n, asked n = false → untraced [event n] = []) :
    untraced ((notes.filter asked).map event) = untraced (notes.map event) := by
  rw [← List.filterMap_eq_filter]
  refine untraced_filterMap fun n => ?_
  cases hn : asked n with
  | true => simp [Option.guard, hn]
  | false =>
    rw [h n hn, Option.guard, hn]
    rfl

end

theorem untraced_reading (limits : Limits) (settings : LexicalSettings) (source : List UInt8) :
    untraced ((Source.read limits settings source).notes.map Report.Source.event) =
      untraced ((Source.read limits Source.allNotes source).notes.map Report.Source.event) := by
  rw [Source.read_asked settings]
  refine untraced_filterMap fun n => ?_
  cases n with
  | failed | split => rfl
  | delimited metrics detailed =>
    simp only [Source.Note.asked?]
    rfl
  | token t =>
    simp only [Source.Note.asked?]
    split <;> rfl

theorem untraced_scanning (limits : Limits) (settings : ScanSettings) (maxDepth : Nat)
    (tokens : List Source.Token) (p : Program) :
    untraced ((Program.scan settings maxDepth tokens p).notes.map Report.Program.event) =
      untraced ((Program.scan Program.allNotes maxDepth tokens p).notes.map
        Report.Program.event) := by
  rw [Program.scan_asked settings]
  refine untraced_filter fun n hn => ?_
  cases n with
  | declared | entered | left => rfl
  | failed => cases hn

theorem untraced_converting (limits : Limits) (symbols : Symbol.Table)
    (settings : ConversionSettings) (lexemes : Lexeme.Table) :
    untraced ((Postfix.convertAll symbols settings lexemes).notes.map Report.Postfix.event) =
      untraced ((Postfix.convertAll symbols Postfix.allNotes lexemes).notes.map
        Report.Postfix.event) := by
  rw [Postfix.convertAll_asked settings]
  refine untraced_filter fun n hn => ?_
  cases n with
  | converted => rfl
  | failed => cases hn

theorem convert_settings (limits : Limits) (settings settings' : Settings)
    (tokens : Source.Tokens) (program : Program) (metrics : Program.Metrics) :
    SameButTraces (convert limits settings tokens program metrics)
      (convert limits settings' tokens program metrics) := by
  have hevents := (untraced_converting limits program.symbols settings.conversion
    program.lexemes).trans (untraced_converting limits program.symbols settings'.conversion
    program.lexemes).symm
  obtain ⟨hlexemes, hresult⟩ := @Postfix.convertAll_settings limits program.symbols
    program.lexemes settings.conversion settings'.conversion
  cases h : (Postfix.convertAll program.symbols settings'.conversion program.lexemes).result with
  | error e =>
    simp only [convert, hresult, h]
    exact ⟨rfl, hevents⟩
  | ok conversion =>
    simp only [convert, hlexemes, hresult, h]
    exact ⟨rfl, by rw [untraced_append, untraced_append, hevents]⟩

theorem scan_settings (limits : Limits) (settings settings' : Settings) (tokens : Source.Tokens) :
    SameButTraces (scan limits settings tokens) (scan limits settings' tokens) := by
  have hevents := (untraced_scanning limits settings.scan limits.maxScopeDepth tokens.tokens
    (.empty limits.maxSymbols limits.maxLexemes)).trans (untraced_scanning limits settings'.scan
    limits.maxScopeDepth tokens.tokens (.empty limits.maxSymbols limits.maxLexemes)).symm
  obtain ⟨hprogram, hresult⟩ := @Program.scan_settings limits limits.maxScopeDepth tokens.tokens
    (.empty limits.maxSymbols limits.maxLexemes) settings.scan settings'.scan
  cases h : (Program.scan settings'.scan limits.maxScopeDepth tokens.tokens
      (.empty limits.maxSymbols limits.maxLexemes)).result with
  | error e =>
    simp only [scan, hresult, h]
    exact ⟨rfl, hevents⟩
  | ok metrics =>
    simp only [scan, hprogram, hresult, h]
    obtain ⟨hlater, hlaterEvents⟩ := convert_settings limits settings settings' tokens
      (Program.scan settings'.scan limits.maxScopeDepth tokens.tokens
        (.empty limits.maxSymbols limits.maxLexemes)).program metrics
    refine ⟨hlater, ?_⟩
    rw [untraced_append, untraced_append, hevents, ← List.singleton_append, untraced_append,
      hlaterEvents, ← untraced_append, List.singleton_append]

theorem stages_settings (limits : Limits) (settings settings' : Settings) (bytes : List UInt8) :
    SameButTraces (stages limits settings bytes) (stages limits settings' bytes) := by
  have hevents := (untraced_reading limits settings.lexical bytes).trans
    (untraced_reading limits settings'.lexical bytes).symm
  have hresult : (Source.read limits settings.lexical bytes).result =
      (Source.read limits settings'.lexical bytes).result :=
    (Source.result_read settings.lexical).trans (Source.result_read settings'.lexical).symm
  cases h : (Source.read limits settings'.lexical bytes).result with
  | error e =>
    simp only [stages, hresult, h]
    exact ⟨rfl, hevents⟩
  | ok tokens =>
    obtain ⟨hlater, hlaterEvents⟩ := scan_settings limits settings settings' tokens
    simp only [stages, hresult, h]
    exact ⟨hlater, by rw [untraced_append, untraced_append, hevents, hlaterEvents]⟩

/-- Whatever the settings, a source is compiled into the same tables with the same counts, or fails
in the same way, and what is reported differs in traces only. -/
theorem source_settings (limits : Limits) (settings settings' : Settings) (bytes : List UInt8) :
    SameButTraces (Compile.source limits settings bytes)
      (Compile.source limits settings' bytes) := by
  obtain ⟨hresult, hevents⟩ := stages_settings limits settings settings' bytes
  cases h : (stages limits settings bytes).2 with
  | error e =>
    have h' : (stages limits settings' bytes).2 = .error e := hresult ▸ h
    simp only [Compile.source, h, h']
    exact ⟨rfl, hevents⟩
  | ok compiled =>
    have h' : (stages limits settings' bytes).2 = .ok compiled := hresult ▸ h
    simp only [Compile.source, h, h']
    exact ⟨rfl, by rw [untraced_append, untraced_append, hevents]⟩

end Ttm.Compile
