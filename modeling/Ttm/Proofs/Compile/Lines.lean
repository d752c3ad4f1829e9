import Ttm.Proofs.Compile.Dump
import Ttm.Proofs.Program.Raise

/-! The lines of compiled lexemes, and those at which a compilation fails. -/
namespace Ttm

namespace Postfix

variable {limits : Limits} {symbols : Symbol.Table} {t : Lexeme.Table} {start n index : Nat}
  {previous : Option Lexeme.Kind}
  {pass : Pass} {lexemes reordered rest : List Lexeme} {e : Error}

/-- A statement is refused on the line of its first lexeme. -/
theorem line_of_convertFirst (h : convertFirst symbols start lexemes = .error e) :
    ∀ line ∈ e.line, ∃ l ∈ lexemes, l.line = line := by
  unfold convertFirst at h
  split at h
  · cases h
    intro line hline
    obtain ⟨l, hl, rfl⟩ := Option.map_eq_some_iff.mp hline
    exact ⟨l, List.mem_of_head? hl, rfl⟩
  · next span rest hspan =>
    split at h
    · cases h
      obtain ⟨l, tail, rfl⟩ := List.exists_cons_of_length_pos (length_pos_of_splitStatement hspan)
      intro line hline
      cases hline
      refine ⟨l, ?_, rfl⟩
      rw [← append_of_splitStatement hspan]
      exact List.mem_append_left _ List.mem_cons_self
    · cases h

theorem mem_of_convertFirst (h : convertFirst symbols start lexemes = .ok (reordered, n, rest)) :
    ∀ l ∈ rest, l ∈ lexemes := by
  obtain ⟨span, hspan, -, -⟩ := convertFirst_eq_ok.mp h
  intro l hl
  rw [← append_of_splitStatement hspan]
  exact List.mem_append_right _ hl

/-- A pass stops on the line of a lexeme in front of it, which no conversion has reached. -/
theorem line_of_walk (h : (walk symbols index previous pass lexemes).1 = .error e) :
    ∀ line ∈ e.line, ∃ l ∈ lexemes, l.line = line := by
  have hmore {ls ms : List Lexeme} (hsub : ∀ l ∈ ls, l ∈ ms)
      (hls : ∀ line ∈ e.line, ∃ l ∈ ls, l.line = line) :
      ∀ line ∈ e.line, ∃ l ∈ ms, l.line = line := fun line hline =>
    (hls line hline).imp fun l hl => hl.imp_left (hsub l)
  fun_induction walk symbols index previous pass lexemes with
  | case1 => cases h
  | case2 index previous pass l rest hp ih => exact hmore (fun _ => List.mem_cons_of_mem _) (ih h)
  | case3 index previous pass l rest hp hs ih =>
    exact hmore (fun _ => List.mem_cons_of_mem _) (ih h)
  | case4 index previous pass l rest hp hs e' hc =>
    cases h
    exact hmore (fun _ => List.mem_cons_of_mem _) (line_of_convertFirst hc)
  | case5 index previous pass l rest hp hs reordered n behind hc _ ih =>
    exact hmore (fun m hm => List.mem_cons_of_mem _ (mem_of_convertFirst hc m hm)) (ih h)
  | case6 index previous pass l rest hp hs e' hc =>
    cases h
    exact line_of_convertFirst hc
  | case7 index previous pass l rest hp hs reordered n behind hc _ ih =>
    exact hmore (mem_of_convertFirst hc) (ih h)

theorem line_of_convertAll {settings : ConversionSettings}
    (h : (convertAll symbols settings t).result = .error e) :
    ∀ line ∈ e.line, ∃ l ∈ t.toList, l.line = line := by
  simp only [convertAll] at h
  cases hwalk : (walk symbols 0 none { settings } t.toList).1 with
  | error cause =>
    rw [hwalk] at h
    cases h
    exact line_of_walk hwalk
  | ok =>
    rw [hwalk] at h
    cases h

/-- A lexeme of a converted table stands on the line of one of the table before. -/
theorem Completed.exists_line {u : Lexeme.Table} {metrics : Metrics} {l : Lexeme}
    (h : Completed symbols t u metrics) (hl : l ∈ u.contents) :
    ∃ m ∈ t.toList, m.line = l.line := by
  rw [Lexeme.Table.contents, List.mem_filter, Bool.not_eq_true'] at hl
  obtain ⟨i, hi, hget⟩ := List.getElem_of_mem hl.1
  obtain ⟨j, m, hm, hline, -, -⟩ := h.origin (i := i)
    (by rw [Lexeme.Table.get?_eq_getElem?, List.getElem?_eq_some_iff]; exact ⟨hi, hget⟩)
    (ne_padding hl.2)
  exact ⟨m, Lexeme.Table.mem_toList_of_get? hm, hline⟩

end Postfix

namespace Compile

open Lexeme.Table (InOrder)
open Source (HasLine)

/-- The lines in the outcome of a compilation are lines of its source. Those of lexemes are lines of
its tokens; padding has none. -/
inductive Located (limits : Limits) (source : List UInt8) : Except Error Compiled → Prop
  | compiled {tokens : Source.Tokens} {compiled : Compiled}
      (tokenized : Source.tokenize limits source = .ok tokens)
      (lexemes : ∀ l ∈ compiled.program.lexemes.contents, HasLine source l.line ∧
        ∃ token ∈ tokens.tokens, token.line = l.line) : Located limits source (.ok compiled)
  | failed {e : Error} (line : ∀ line ∈ e.diagnostic.line, HasLine source line) :
    Located limits source (.error e)

section

variable {limits : Limits} {settings : Settings} {source : List UInt8} {tokens : Source.Tokens}
  {program : Program} {notes : List Program.Note} {metrics : Program.Metrics} {compiled : Compiled}
  {e : Error}

/-- The lexemes of a scanned source are in the order of their lines, which its tokens have too. -/
theorem lined_of_tokenize (htokens : Source.tokenize limits source = .ok tokens)
    (hscan : Program.scan settings.scan limits.maxScopeDepth tokens.tokens
      (.empty limits.maxSymbols limits.maxLexemes) = ⟨program, notes, .ok metrics⟩) :
    Program.Lined tokens.tokens program := by
  have hlined := Program.lined_of_scan (Source.lines_of_tokenize htokens)
    (congrArg Program.Scanned.result hscan)
  rwa [hscan] at hlined

theorem FailsWith.hasLine (hroom : Symbol.Signature.library.length ≤ limits.maxSymbols)
    (h : FailsWith limits settings source e) : ∀ line ∈ e.line, HasLine source line := by
  intro line hline
  cases h with
  | source htokens => exact Source.hasLine_of_refused htokens line hline
  | program htokens hscan =>
    obtain ⟨symbols, hlibrary, -⟩ := Symbol.Table.registerLibrary_empty hroom
    rcases Program.line_of_scan hlibrary hscan with ⟨token, htoken, htokenLine⟩ | hnone
    · obtain rfl : token.line = line := Option.some.inj (htokenLine.symm.trans hline)
      exact Source.hasLine_of_tokenize htokens token htoken
    · cases hnone.symm.trans hline
  | postfixOrder htokens hscan hconvert =>
    obtain ⟨l, hl, rfl⟩ := Postfix.line_of_convertAll hconvert line hline
    obtain ⟨token, htoken, htokenLine⟩ := (lined_of_tokenize htokens hscan).token l hl
    rw [← htokenLine]
    exact Source.hasLine_of_tokenize htokens token htoken

theorem located_of_ok (h : (Compile.source limits settings source).2 = .ok compiled) :
    Located limits source (.ok compiled) := by
  obtain ⟨tokens, program, notes, metrics, conversion, htokens, hscan, -, hcompleted⟩ :=
    completed_of_source h
  refine .compiled htokens fun l hl => ?_
  obtain ⟨m, hm, hmLine⟩ := hcompleted.exists_line hl
  obtain ⟨token, htoken, hline⟩ := (lined_of_tokenize htokens hscan).token m hm
  rw [← hmLine, ← hline]
  exact ⟨Source.hasLine_of_tokenize htokens token htoken, token, htoken, rfl⟩

/-- A compilation gives lines of its source only, to lexemes those of its tokens. Until a scanned
program is converted its lexemes are in the order of their lines. -/
theorem source_located (limits : Limits) (settings : Settings) (source : List UInt8)
    (hroom : Symbol.Signature.library.length ≤ limits.maxSymbols) :
    Located limits source (Compile.source limits settings source).2 ∧
      ∀ tokens program notes metrics, Source.tokenize limits source = .ok tokens →
        Program.scan settings.scan limits.maxScopeDepth tokens.tokens
          (.empty limits.maxSymbols limits.maxLexemes) = ⟨program, notes, .ok metrics⟩ →
        InOrder program.lexemes.toList := by
  constructor
  · cases hresult : (Compile.source limits settings source).2 with
    | error e => exact .failed ((failsWith_of_source hresult).hasLine hroom)
    | ok compiled => exact located_of_ok hresult
  · intro tokens program notes metrics htokens hscan
    exact (lined_of_tokenize htokens hscan).inOrder

end

attribute [local instance] Limits.development

/-- An operator that moves behind an operand of the next line keeps its own line. -/
theorem located_spread : Symbol.Signature.library.length ≤ Limits.development.maxSymbols ∧
    ∃ compiled, (Compile.source .development {} spreadSource).2 = .ok compiled ∧
      Located .development spreadSource (.ok compiled) ∧
      Lexeme.Table.InOrder spreadScan.program.lexemes.toList := by
  have hroom : Symbol.Signature.library.length ≤ Limits.development.maxSymbols := by decide
  obtain ⟨compiled, hok⟩ : ∃ compiled,
      (Compile.source .development {} spreadSource).2 = .ok compiled :=
    source_of_stages tokenize_spread scan_spread convertAll_spread
  obtain ⟨hlocated, hinOrder⟩ := source_located .development {} spreadSource hroom
  rw [hok] at hlocated
  refine ⟨hroom, compiled, hok, hlocated, ?_⟩
  cases htokens : Source.tokenize .development spreadSource with
  | error e => cases htokens ▸ tokenize_spread
  | ok tokens =>
    have hread := tokenize_spread
    rw [htokens] at hread
    have hlist : tokens.tokens = spread := Except.ok.inj hread
    exact hinOrder tokens _ _ _ htokens (by rw [hlist]; exact scan_spread)

end Compile
end Ttm
