import Mathlib
import Ttm.Proofs.Compile.Stages
import Ttm.Proofs.Postfix.Note
import Ttm.Proofs.Program.Raise

/-! What a compilation reports as an error. -/
namespace Ttm.Compile

open Log (Event)

/-- Events among which there is no error. -/
def Calm (events : List Event) : Prop := ∀ x ∈ events, x.isError = false

/-- The events of a run that comes to a result: an error is the last of them and has the code of
the failure, and there is none besides. -/
inductive Logged {α : Type} : List Event → Except Error α → Prop
  | success {events : List Event} {a : α} (calm : Calm events) : Logged events (.ok a)
  | failure {before : List Event} {last : Event} {e : Error} (calm : Calm before)
    (level : last.isError) (code : last.code = e.code) : Logged (before ++ [last]) (.error e)

section

variable {α : Type} {events later : List Event} {result : Except Error α}

theorem calm_nil : Calm [] := fun _ h => by cases h

theorem Calm.append (h : Calm events) (h' : Calm later) : Calm (events ++ later) :=
  List.forall_mem_append.mpr ⟨h, h'⟩

theorem Calm.cons {x : Event} (hx : x.isError = false) (h : Calm events) : Calm (x :: events) :=
  List.forall_mem_cons.mpr ⟨hx, h⟩

/-- A stage may follow what reported no error. -/
theorem Calm.logged (h : Calm events) (hl : Logged later result) :
    Logged (events ++ later) result := by
  cases hl with
  | success calm => exact .success (h.append calm)
  | failure calm level code =>
    rw [← List.append_assoc]
    exact .failure (h.append calm) level code

theorem Logged.calm {a : α} (h : Logged events (.ok a)) : Calm events := by
  cases h
  assumption

/-- A failure is handed on as it is. -/
theorem Logged.error {β : Type} {e : Error} (h : Logged events (.error e : Except Error β)) :
    Logged events (.error e : Except Error α) := by
  cases h with
  | failure calm level code => exact .failure calm level code

/-- A run that fails reports its error last, and none before it. -/
theorem Logged.exists_last {e : Error} (h : Logged events (.error e : Except Error α)) :
    ∃ before last, events = before ++ [last] ∧ Calm before ∧ last.isError ∧ last.code = e.code := by
  generalize hresult : (.error e : Except Error α) = result at h
  cases h with
  | success => cases hresult
  | failure calm level code =>
    cases hresult
    exact ⟨_, _, rfl, calm, level, code⟩

section

variable {ν ε : Type} {event : ν → Event} {isFailure : ν → Bool} {cause : ε → Error}
  {notes : List ν} {outcome : Except ε α}

theorem calm_map (hevent : ∀ n, (event n).isError = isFailure n)
    (h : ∀ n ∈ notes, isFailure n = false) : Calm (notes.map event) :=
  List.forall_mem_map.mpr fun n hn => (hevent n).trans (h n hn)

/-- A stage that notes a failure last, and just where it fails, reports it so. -/
theorem logged_notes (hevent : ∀ n, (event n).isError = isFailure n)
    (hok : ∀ a, outcome = .ok a → ∀ n ∈ notes, isFailure n = false)
    (herror : ∀ e, outcome = .error e → ∃ before last, notes = before ++ [last] ∧
      (∀ n ∈ before, isFailure n = false) ∧ isFailure last ∧ (event last).code = (cause e).code) :
    Logged (notes.map event) (outcome.mapError cause) := by
  cases houtcome : outcome with
  | ok a => exact .success (calm_map hevent (hok a houtcome))
  | error e =>
    obtain ⟨before, last, rfl, hbefore, hlast, hcode⟩ := herror e houtcome
    rw [List.map_append]
    exact .failure (calm_map hevent hbefore) ((hevent last).trans hlast) hcode

end

theorem isError_source (n : Source.Note) : (Report.Source.event n).isError = n.isFailure := by
  cases n <;> rfl

theorem isError_program (n : Program.Note) : (Report.Program.event n).isError = n.isFailure := by
  cases n <;> rfl

theorem isError_postfix (n : Postfix.Note) : (Report.Postfix.event n).isError = n.isFailure := by
  cases n <;> rfl

theorem logged_reading (limits : Limits) (settings : LexicalSettings) (source : List UInt8) :
    Logged ((Source.read limits settings source).notes.map Report.Source.event)
      ((Source.read limits settings source).result.mapError .source) := by
  refine logged_notes isError_source (fun _ h => Source.quiet_of_reading h) fun e h => ?_
  obtain ⟨before, words, position, facts, hbefore, hnotes⟩ := Source.failed_of_reading h
  exact ⟨before, _, hnotes, hbefore, rfl, rfl⟩

theorem logged_scanning (limits : Limits) (settings : ScanSettings) (maxDepth : Nat)
    (tokens : List Source.Token) (p : Program) :
    Logged ((Program.scan settings maxDepth tokens p).notes.map Report.Program.event)
      ((Program.scan settings maxDepth tokens p).result.mapError .program) := by
  refine logged_notes isError_program (fun _ h => Program.quiet_of_scan h) fun e h => ?_
  obtain ⟨before, hbefore, hnotes⟩ := Program.failed_of_scan h
  exact ⟨before, _, hnotes, hbefore, rfl, rfl⟩

theorem logged_converting (limits : Limits) (symbols : Symbol.Table)
    (settings : ConversionSettings) (lexemes : Lexeme.Table) :
    Logged ((Postfix.convertAll symbols settings lexemes).notes.map Report.Postfix.event)
      ((Postfix.convertAll symbols settings lexemes).result.mapError .postfixOrder) := by
  refine logged_notes isError_postfix (fun _ h => Postfix.quiet_of_convertAll h) fun e h => ?_
  obtain ⟨before, hbefore, hnotes⟩ := Postfix.failed_of_convertAll h
  exact ⟨before, _, hnotes, hbefore, rfl, rfl⟩

theorem logged_convert (limits : Limits) (settings : Settings) (tokens : Source.Tokens)
    (program : Program) (metrics : Program.Metrics) :
    Logged (convert limits settings tokens program metrics).1
      (convert limits settings tokens program metrics).2 := by
  have hstage := logged_converting limits program.symbols settings.conversion program.lexemes
  cases hresult :
    (Postfix.convertAll program.symbols settings.conversion program.lexemes).result with
  | error e =>
    rw [hresult] at hstage
    simpa only [convert, hresult] using hstage.error
  | ok conversion =>
    rw [hresult] at hstage
    simpa only [convert, hresult] using hstage.calm.logged (.success (calm_nil.cons rfl))

theorem logged_scan (limits : Limits) (settings : Settings) (tokens : Source.Tokens) :
    Logged (scan limits settings tokens).1 (scan limits settings tokens).2 := by
  have hstage := logged_scanning limits settings.scan limits.maxScopeDepth tokens.tokens
    (.empty limits.maxSymbols limits.maxLexemes)
  cases hresult : (Program.scan settings.scan limits.maxScopeDepth tokens.tokens
      (.empty limits.maxSymbols limits.maxLexemes)).result with
  | error e =>
    rw [hresult] at hstage
    simpa only [scan, hresult] using hstage.error
  | ok metrics =>
    rw [hresult] at hstage
    have hdone : Calm [Report.Program.scanDone metrics] := calm_nil.cons rfl
    simpa only [scan, hresult, List.singleton_append] using
      hstage.calm.logged (hdone.logged (logged_convert limits settings tokens _ metrics))

theorem logged_stages (limits : Limits) (settings : Settings) (bytes : List UInt8) :
    Logged (stages limits settings bytes).1 (stages limits settings bytes).2 := by
  have hstage := logged_reading limits settings.lexical bytes
  cases hresult : (Source.read limits settings.lexical bytes).result with
  | error e =>
    rw [hresult] at hstage
    simpa only [stages, hresult] using hstage.error
  | ok tokens =>
    rw [hresult] at hstage
    simpa only [stages, hresult] using hstage.calm.logged (logged_scan limits settings tokens)

/-- With any settings, a compilation that fails reports one error, behind all else it reports and
with the code of the failure, and one that succeeds reports none. -/
theorem source_logged (limits : Limits) (settings : Settings) (bytes : List UInt8) :
    Logged (Compile.source limits settings bytes).1 (Compile.source limits settings bytes).2 := by
  have hstages := logged_stages limits settings bytes
  cases hresult : (stages limits settings bytes).2 with
  | error e =>
    rw [hresult] at hstages
    simpa only [Compile.source, hresult] using hstages
  | ok compiled =>
    rw [hresult] at hstages
    simpa only [Compile.source, hresult] using
      hstages.calm.logged (.success (calm_nil.cons rfl))

end

attribute [local instance] Limits.development

/-- A name that nothing declares. -/
def strayName : List UInt8 := [120]

/-- With its tokens reported, a source that fails in its scan reports three events and the error. -/
theorem logged_strayName :
    (Compile.source .development { lexical.traceTokens := true } strayName).2 =
      .error (.program (.undeclaredIdentifier "x" 1)) ∧
    ∃ before last, (Compile.source .development { lexical.traceTokens := true } strayName).1 =
        before ++ [last] ∧
      before.length = 3 ∧ Calm before ∧ last.isError ∧
        last.code = (Error.program (.undeclaredIdentifier "x" 1)).code := by
  have htokens : Source.tokenize .development strayName = .ok
      ⟨[⟨"x", 1⟩], { bytesRead := 1, lines := 1, outputBytes := 1 }⟩ := by decide +kernel
  have hnotes : (Source.read .development { traceTokens := true } strayName).notes.length = 3 := by
    decide +kernel
  have hscanned : ((Program.scan {} Limits.development.maxScopeDepth [⟨"x", 1⟩]
      (.empty Limits.development.maxSymbols Limits.development.maxLexemes)).notes.length,
      (Program.scan {} Limits.development.maxScopeDepth [⟨"x", 1⟩]
      (.empty Limits.development.maxSymbols Limits.development.maxLexemes)).result) =
        (1, .error (.undeclaredIdentifier "x" 1)) := by
    cbv
  obtain ⟨hscanNotes, hscan⟩ := Prod.mk.inj hscanned
  have hread : (Source.read .development { traceTokens := true } strayName).result = .ok _ :=
    (Source.result_read _).trans htokens
  have hresult : (Compile.source .development { lexical.traceTokens := true } strayName).2 =
      .error (.program (.undeclaredIdentifier "x" 1)) := by
    rw [source_eq_stages, stages_of_tokenize htokens, scan_of_error hscan]
  have hlength : (Compile.source .development { lexical.traceTokens := true }
      strayName).1.length = 4 := by
    simp only [Compile.source, stages, hread, scan, hscan, List.length_append, List.length_map,
      hnotes, hscanNotes]
  have hlogged := source_logged .development { lexical.traceTokens := true } strayName
  rw [hresult] at hlogged
  obtain ⟨before, last, hevents, hcalm, hlevel, hcode⟩ := hlogged.exists_last
  rw [hevents, List.length_append, List.length_singleton] at hlength
  exact ⟨hresult, before, last, hevents, Nat.succ.inj hlength, hcalm, hlevel, hcode⟩

end Ttm.Compile
