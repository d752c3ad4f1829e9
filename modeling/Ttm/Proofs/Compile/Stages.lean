import Ttm.Compile
import Ttm.Proofs.Source.Note

/-! How the outcome of a compilation follows from the outcomes of its stages. -/
namespace Ttm.Compile

/-- What makes a compilation fail, stage by stage. -/
inductive FailsWith (limits : Limits) (settings : Settings) (source : List UInt8) : Error → Prop
  | source {cause : Source.Error} (tokenized : Source.tokenize limits source = .error cause) :
    FailsWith limits settings source (.source cause)
  | program {tokens : Source.Tokens} {cause : Program.Error}
      (tokenized : Source.tokenize limits source = .ok tokens)
      (scanned : (Program.scan settings.scan limits.maxScopeDepth tokens.tokens
        (.empty limits.maxSymbols limits.maxLexemes)).result = .error cause) :
    FailsWith limits settings source (.program cause)
  | postfixOrder {tokens : Source.Tokens} {program : Program} {notes : List Program.Note}
      {metrics : Program.Metrics} {cause : Postfix.Error}
      (tokenized : Source.tokenize limits source = .ok tokens)
      (scanned : Program.scan settings.scan limits.maxScopeDepth tokens.tokens
        (.empty limits.maxSymbols limits.maxLexemes) = ⟨program, notes, .ok metrics⟩)
      (converted : (Postfix.convertAll program.symbols settings.conversion program.lexemes).result =
        .error cause) :
    FailsWith limits settings source (.postfixOrder cause)

variable {limits : Limits} {settings : Settings} {source : List UInt8} {tokens : Source.Tokens}
  {list : List Source.Token} {program : Program} {metrics : Program.Metrics}
  {conversion : Postfix.Metrics} {notes : List Program.Note}

theorem source_eq_stages : (Compile.source limits settings source).2 =
    (stages limits settings source).2 := by
  unfold Compile.source
  cases hresult : (stages limits settings source).2 <;> simp [hresult]

theorem stages_of_tokenize (h : Source.tokenize limits source = .ok tokens) :
    (stages limits settings source).2 = (scan limits settings tokens).2 := by
  rw [← Source.result_read settings.lexical] at h
  simp only [stages, h]

theorem stages_of_refused {e : Source.Error} (h : Source.tokenize limits source = .error e) :
    (stages limits settings source).2 = .error (.source e) := by
  rw [← Source.result_read settings.lexical] at h
  simp only [stages, h]

theorem scan_of_ok (h : Program.scan settings.scan limits.maxScopeDepth tokens.tokens
      (.empty limits.maxSymbols limits.maxLexemes) = ⟨program, notes, .ok metrics⟩) :
    (scan limits settings tokens).2 = (convert limits settings tokens program metrics).2 := by
  simp only [scan, h]

theorem scan_of_error {e : Program.Error}
    (h : (Program.scan settings.scan limits.maxScopeDepth tokens.tokens
      (.empty limits.maxSymbols limits.maxLexemes)).result = .error e) :
    (scan limits settings tokens).2 = .error (.program e) := by
  simp only [scan, h]

theorem convert_of_ok
    (h : (Postfix.convertAll program.symbols settings.conversion program.lexemes).result =
      .ok conversion) :
    (convert limits settings tokens program metrics).2 = .ok
      { program :=
          { program with
            lexemes :=
              (Postfix.convertAll program.symbols settings.conversion program.lexemes).lexemes }
        tokenCount := tokens.tokens.length, lexical := tokens.metrics, scan := metrics,
        conversion } := by
  simp only [convert, h]

theorem convert_of_error {e : Postfix.Error}
    (h : (Postfix.convertAll program.symbols settings.conversion program.lexemes).result =
      .error e) :
    (convert limits settings tokens program metrics).2 = .error (.postfixOrder e) := by
  simp only [convert, h]

/-- A compilation fails at a stage or goes through all of them. -/
theorem failsWith_or_stages :
    (∃ e, (Compile.source limits settings source).2 = .error e ∧
      FailsWith limits settings source e) ∨
      ∃ tokens program notes metrics conversion compiled,
        Source.tokenize limits source = .ok tokens ∧
        Program.scan settings.scan limits.maxScopeDepth tokens.tokens
          (.empty limits.maxSymbols limits.maxLexemes) = ⟨program, notes, .ok metrics⟩ ∧
        (Postfix.convertAll program.symbols settings.conversion program.lexemes).result =
          .ok conversion ∧
        (Compile.source limits settings source).2 = .ok compiled ∧
        compiled.program = { program with
          lexemes :=
            (Postfix.convertAll program.symbols settings.conversion program.lexemes).lexemes } := by
  rw [source_eq_stages]
  cases htokens : Source.tokenize limits source with
  | error cause => exact Or.inl ⟨_, stages_of_refused htokens, .source htokens⟩
  | ok tokens =>
    rw [stages_of_tokenize htokens]
    obtain ⟨program, notes, result, hscan⟩ : ∃ program notes result,
        Program.scan settings.scan limits.maxScopeDepth tokens.tokens
          (.empty limits.maxSymbols limits.maxLexemes) = ⟨program, notes, result⟩ :=
      ⟨_, _, _, rfl⟩
    cases result with
    | error cause =>
      have hresult := congrArg Program.Scanned.result hscan
      exact Or.inl ⟨_, scan_of_error hresult, .program htokens hresult⟩
    | ok metrics =>
      rw [scan_of_ok hscan]
      cases hconvert :
        (Postfix.convertAll program.symbols settings.conversion program.lexemes).result with
      | error cause =>
        exact Or.inl ⟨_, convert_of_error hconvert, .postfixOrder htokens hscan hconvert⟩
      | ok conversion =>
        exact Or.inr ⟨tokens, program, notes, metrics, conversion, _, rfl, hscan, hconvert,
          convert_of_ok hconvert, rfl⟩

/-- What is compiled went through every stage. -/
theorem stages_of_source {compiled : Compiled}
    (h : (Compile.source limits settings source).2 = .ok compiled) :
    ∃ tokens program notes metrics conversion, Source.tokenize limits source = .ok tokens ∧
      Program.scan settings.scan limits.maxScopeDepth tokens.tokens
        (.empty limits.maxSymbols limits.maxLexemes) = ⟨program, notes, .ok metrics⟩ ∧
      (Postfix.convertAll program.symbols settings.conversion program.lexemes).result =
        .ok conversion ∧
      compiled.program = { program with
        lexemes :=
          (Postfix.convertAll program.symbols settings.conversion program.lexemes).lexemes } := by
  rcases failsWith_or_stages with ⟨e, he, -⟩ |
    ⟨tokens, program, notes, metrics, conversion, _, htokens, hscan, hconvert, hok, hprogram⟩
  · cases he.symm.trans h
  · obtain rfl := Except.ok.inj (hok.symm.trans h)
    exact ⟨tokens, program, notes, metrics, conversion, htokens, hscan, hconvert, hprogram⟩

theorem failsWith_of_source {e : Error} (h : (Compile.source limits settings source).2 = .error e) :
    FailsWith limits settings source e := by
  rcases failsWith_or_stages with ⟨e', he, hfails⟩ | ⟨_, _, _, _, _, _, _, _, _, hok, -⟩
  · rwa [Except.error.inj (h.symm.trans he)]
  · cases hok.symm.trans h

theorem source_of_stages (htokens : (Source.tokenize limits source).map (·.tokens) = .ok list)
    (hscan : Program.scan settings.scan limits.maxScopeDepth list
      (.empty limits.maxSymbols limits.maxLexemes) = ⟨program, notes, .ok metrics⟩)
    (hconvert : (Postfix.convertAll program.symbols settings.conversion program.lexemes).result =
      .ok conversion) :
    ∃ compiled, (Compile.source limits settings source).2 = .ok compiled := by
  cases hread : Source.tokenize limits source with
  | error e =>
    rw [hread] at htokens
    cases htokens
  | ok tokens =>
    rw [hread] at htokens
    obtain rfl : tokens.tokens = list := Except.ok.inj htokens
    exact ⟨_, by rw [source_eq_stages, stages_of_tokenize hread, scan_of_ok hscan,
      convert_of_ok hconvert]⟩

end Ttm.Compile
