import Ttm.Proofs.Compile.Logged
import Ttm.Proofs.Symbol.Library

/-! Where the error stands that a stage reports, and where the failure does. -/
namespace Ttm

open Log (Event)
open Compile (Calm)

namespace Report

/-- The events of a stage that fails: the last one is an error at `position`, and no other one is
an error. -/
inductive ErrorAt (position : Option Position) : List Event → Prop
  | last {before : List Event} {last : Event} (calm : Calm before) (level : last.isError)
    (place : last.position = position) : ErrorAt position (before ++ [last])

section

variable {limits : Limits} {ν : Type} {event : ν → Event} {isFailure : ν → Bool}
  {before notes : List ν} {last : ν} {position : Option Position}

/-- A stage that notes a failure last reports it where the note places it. -/
theorem errorAt_notes (hevent : ∀ n, (event n).isError = isFailure n)
    (hnotes : notes = before ++ [last]) (hbefore : ∀ n ∈ before, isFailure n = false)
    (hlast : isFailure last) (hplace : (event last).position = position) :
    ErrorAt position (notes.map event) := by
  rw [hnotes, List.map_append]
  exact .last (Compile.calm_map hevent hbefore) ((hevent last).trans hlast) hplace

theorem errorAt_delimiting {table : ByteTable} {maxString : Nat} {source : List UInt8}
    {e : Source.Error} (h : (Source.Delimited.delimit table maxString source).result = .error e) :
    ErrorAt e.position
      ((Source.Delimited.delimit table maxString source).notes.map Report.Source.event) := by
  obtain ⟨words, facts, hnotes⟩ := Source.Delimited.failed_of_delimit h
  exact errorAt_notes Compile.isError_source (show _ = [] ++ [_] from hnotes)
    (List.forall_mem_nil _) rfl rfl

/-- What is split into more tokens than allowed fails at the first of those above the bound, and is
noted at no position. -/
theorem errorAt_splitting {trace : Bool} {max : Nat} {text : List UInt8} {e : Source.Error}
    (h : (Source.Token.split trace max text).result = .error e) :
    ErrorAt none ((Source.Token.split trace max text).notes.map Report.Source.event) ∧
      ∃ token, (Source.Token.ofDelimited text)[max]? = some token ∧
        e.position = some (.atLine token.line) := by
  rcases Source.Token.length_le_or_excess max (Source.Token.ofDelimited text) with
    hle | ⟨before, token, behind, hexcess, hbefore⟩
  · rw [Source.Token.split_of_length_le hle] at h
    cases h
  · rw [Source.Token.split_of_excess hexcess hbefore] at h ⊢
    cases h
    have hnoted : ErrorAt none ((Source.Token.traced trace before ++
        [Source.Token.excessNote max token.line]).map Report.Source.event) :=
      errorAt_notes Compile.isError_source rfl (Source.quiet_traced trace) rfl rfl
    refine ⟨hnoted, token, ?_, rfl⟩
    rw [hexcess, ← hbefore, List.getElem?_append_right (Nat.le_refl _), Nat.sub_self]
    rfl

theorem errorAt_scanning {settings : ScanSettings} {maxDepth : Nat} {tokens : List Source.Token}
    {p : Program} {e : Program.Error}
    (h : (Program.scan settings maxDepth tokens p).result = .error e) :
    ErrorAt e.position
      ((Program.scan settings maxDepth tokens p).notes.map Report.Program.event) := by
  obtain ⟨before, hbefore, hnotes⟩ := Program.failed_of_scan h
  exact errorAt_notes Compile.isError_program hnotes hbefore rfl rfl

theorem errorAt_converting {symbols : Symbol.Table} {settings : ConversionSettings}
    {lexemes : Lexeme.Table} {e : Postfix.Error}
    (h : (Postfix.convertAll symbols settings lexemes).result = .error e) :
    ErrorAt e.position
      ((Postfix.convertAll symbols settings lexemes).notes.map Report.Postfix.event) := by
  obtain ⟨before, hbefore, hnotes⟩ := Postfix.failed_of_convertAll h
  exact errorAt_notes Compile.isError_postfix hnotes hbefore rfl rfl

/-- With any settings, a stage that fails at a byte, for quotes, at a token or in a statement
reports the error at the position of the failure. More tokens than allowed are reported at no
position, although that failure has one: the line of the first token above the bound. -/
theorem stages_errorAt (limits : Limits) (settings : Settings) :
    (∀ (table : ByteTable) (maxString : Nat) (source : List UInt8) (e : Source.Error),
      (Source.Delimited.delimit table maxString source).result = .error e →
        ErrorAt e.position
          ((Source.Delimited.delimit table maxString source).notes.map Report.Source.event)) ∧
    (∀ (max : Nat) (text : List UInt8) (e : Source.Error),
      (Source.Token.split settings.lexical.traceTokens max text).result = .error e →
        ErrorAt none ((Source.Token.split settings.lexical.traceTokens max text).notes.map
          Report.Source.event) ∧
          ∃ token, (Source.Token.ofDelimited text)[max]? = some token ∧
            e.position = some (.atLine token.line)) ∧
    (∀ (maxDepth : Nat) (tokens : List Source.Token) (p : Program) (e : Program.Error),
      (Program.scan settings.scan maxDepth tokens p).result = .error e →
        ErrorAt e.position
          ((Program.scan settings.scan maxDepth tokens p).notes.map Report.Program.event)) ∧
    ∀ (symbols : Symbol.Table) (lexemes : Lexeme.Table) (e : Postfix.Error),
      (Postfix.convertAll symbols settings.conversion lexemes).result = .error e →
        ErrorAt e.position ((Postfix.convertAll symbols settings.conversion lexemes).notes.map
          Report.Postfix.event) := by
  refine ⟨?_, ?_, ?_, ?_⟩
  · intro table maxString source e h
    exact errorAt_delimiting h
  · intro max text e h
    exact errorAt_splitting h
  · intro maxDepth tokens p e h
    exact errorAt_scanning h
  · intro symbols lexemes e h
    exact errorAt_converting h

end

attribute [local instance] Limits.development

/-- A source that is a byte which no source may hold. -/
def strayByte : List UInt8 := [36]

/-- Three tokens on one line. -/
def threeTokens : List UInt8 := [97, Byte.delimiter, 98, Byte.delimiter, 99]

/-- A statement without its semicolon. -/
def openStatement : Lexeme.Table := ⟨#[⟨.assign, 1, none⟩, ⟨.literal, 1, none⟩], 2⟩

theorem convertAll_openStatement : (Postfix.convertAll (.empty 0) {} openStatement).result =
    .error (.missingTerminator 1 (some 1)) := by
  have hfirst : Postfix.convertFirst (.empty 0) 1 [⟨.literal, 1, none⟩] =
      .error (.missingTerminator 1 (some 1)) := rfl
  have hwalk : (Postfix.walk (.empty 0) 0 none { settings := {} }
      [⟨.assign, 1, none⟩, ⟨.literal, 1, none⟩]).1 = .error (.missingTerminator 1 (some 1)) := by
    rw [Postfix.walk_behind rfl rfl, hfirst]
  show (Postfix.walk (.empty 0) 0 none { settings := {} } openStatement.toList).1.map _ = _
  rw [openStatement, Lexeme.Table.toList, hwalk]
  rfl

/-- Where two tokens are allowed, the third one fails on line 1, and is reported at no position. The
other stages fail at a byte, for want of room and in a statement, and report that position. -/
theorem stages_errorAt_small :
    (∃ e, (Source.Delimited.delimit .standard 255 strayByte).result = .error e ∧
      e.position = some (.atColumn 1 1) ∧
      ErrorAt e.position
        ((Source.Delimited.delimit .standard 255 strayByte).notes.map Report.Source.event)) ∧
    (∃ e, (Source.Token.split false 2 threeTokens).result = .error e ∧
      e.position = some (.atLine 1) ∧
      ErrorAt none ((Source.Token.split false 2 threeTokens).notes.map Report.Source.event)) ∧
    (∃ e, (Program.scan {} 0 [] (.empty 0 0)).result = .error e ∧
      ErrorAt e.position ((Program.scan {} 0 [] (.empty 0 0)).notes.map Report.Program.event)) ∧
    ∃ e, (Postfix.convertAll (.empty 0) {} openStatement).result = .error e ∧
      e.position = some (.atLine 1) ∧
      ErrorAt e.position
        ((Postfix.convertAll (.empty 0) {} openStatement).notes.map Report.Postfix.event) := by
  obtain ⟨hdelimiting, hsplitting, hscanning, hconverting⟩ := stages_errorAt .development {}
  refine ⟨?_, ?_, ?_, ?_⟩
  · have hbyte : (Source.Delimited.delimit .standard 255 strayByte).result =
        .error (.forbiddenCharacter 36 1 1) := by decide +kernel
    exact ⟨_, hbyte, rfl, hdelimiting _ _ _ _ hbyte⟩
  · have hexcess : (Source.Token.split false 2 threeTokens).result =
        .error (.tooManyTokens 3 2 1) := by decide +kernel
    exact ⟨_, hexcess, rfl, (hsplitting _ _ _ hexcess).1⟩
  · cases hresult : (Program.scan {} 0 [] (.empty 0 0)).result with
    | ok metrics =>
      obtain ⟨n, symbols, t, hr, -⟩ := Program.steps_of_scan hresult
      cases Symbol.Table.registerLibrary_empty_eq_ok hr
    | error e => exact ⟨e, rfl, hscanning _ _ _ _ hresult⟩
  · exact ⟨_, convertAll_openStatement, rfl, hconverting _ _ _ convertAll_openStatement⟩

end Report
end Ttm
