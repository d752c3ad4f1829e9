import Ttm.Proofs.Compile.Stages
import Ttm.Proofs.Program.Action
import Ttm.Proofs.Source.LineEnding

/-! What a compilation makes of line endings. -/
namespace Ttm

open Lexeme (Kind)
open Source (Token)

namespace Program

namespace Scan

/-- One outcome, or two failures with one code on one line. -/
inductive Agree {α : Type} :
    EStateM.Result Error State α → EStateM.Result Error State α → Prop
  | ok {x : α} {s : State} : Agree (.ok x s) (.ok x s)
  | error {e e' : Error} {s s' : State} (code : e.code = e'.code) (line : e.line = e'.line) :
    Agree (.error e s) (.error e' s')

variable {limits : Limits} {α β : Type} {a a' : Action α} {f f' : α → Action β} {s : State}
  {r : EStateM.Result Error State α} {tokens tokens' : List Token}

theorem Agree.refl : Agree r r := by
  cases r with
  | ok => exact .ok
  | error => exact .error rfl rfl

theorem Agree.bind (h : Agree (a s) (a' s)) (hf : ∀ x t, Agree (f x t) (f' x t)) :
    Agree ((a >>= f) s) ((a' >>= f') s) := by
  show Agree (EStateM.bind a f s) (EStateM.bind a' f' s)
  unfold EStateM.bind
  generalize a s = r at h ⊢
  generalize a' s = r' at h ⊢
  cases h with
  | ok => exact hf _ _
  | error code line => exact .error code line

theorem opensCall_alike (h : List.Forall₂ Token.Alike tokens tokens') :
    opensCall tokens = opensCall tokens' := by
  cases h with
  | nil => rfl
  | @cons token token' _ _ halike =>
    have hparen : Kind.ofText? "(" = some .openParen := rfl
    rcases halike.text with htext | ⟨hnone, hnone'⟩
    · simp only [opensCall, List.head?_cons, Option.any_some, htext]
    · have hne {token : Token} (h : Kind.ofText? token.text = none) :
          (token.text == "(") = false := by
        rw [beq_eq_false_iff_ne]
        intro htext
        cases hparen.symm.trans (htext ▸ h)
      simp only [opensCall, List.head?_cons, Option.any_some, hne hnone, hne hnone']

/-- The first tokens that differ both fail. -/
theorem scanTokens_alike (h : List.Forall₂ Token.Alike tokens tokens') :
    ∀ s, Agree (scanTokens tokens s) (scanTokens tokens' s) := by
  induction h with
  | nil => exact fun _ => .refl
  | @cons token token' rest rest' halike hrest ih =>
    intro s
    rcases halike.text with htext | ⟨hnone, hnone'⟩
    · obtain rfl : token = token' := by
        cases token
        cases token'
        cases htext
        cases halike.line
        rfl
      simp only [scanTokens, opensCall_alike hrest]
      exact Agree.refl.bind fun _ t => ih t
    · have hraise {token : Token} {rest : List Token} (h : Kind.ofText? token.text = none) :
          scanTokens (token :: rest) s = raise (.unrecognizedToken token.text token.line) s := by
        simp only [scanTokens, scanToken, h, raise_bind]
        rfl
      rw [hraise hnone, hraise hnone']
      exact .error rfl (congrArg some halike.line)

theorem run_alike (h : List.Forall₂ Token.Alike tokens tokens') :
    Agree (run tokens s) (run tokens' s) := by
  have hline : firstLine tokens = firstLine tokens' := by
    cases h with
    | nil => rfl
    | cons halike => exact halike.line
  simp only [run, hline, h.length_eq]
  exact Agree.refl.bind fun _ t => (scanTokens_alike h t).bind fun _ _ => .refl

end Scan

variable {limits : Limits}

theorem scan_alike {tokens tokens' : List Token} (h : List.Forall₂ Token.Alike tokens tokens')
    (settings : ScanSettings) (maxDepth : Nat) (p : Program) :
    (∃ e e', (scan settings maxDepth tokens p).result = .error e ∧
      (scan settings maxDepth tokens' p).result = .error e' ∧ e.code = e'.code ∧ e.line = e'.line) ∨
      ∃ program notes metrics, scan settings maxDepth tokens p = ⟨program, notes, .ok metrics⟩ ∧
        scan settings maxDepth tokens' p = ⟨program, notes, .ok metrics⟩ := by
  have hrun :=
    Scan.run_alike (s := ⟨settings, p, .global maxDepth, Symbol.globalScope, none, false, {}, []⟩) h
  unfold scan
  generalize Scan.run tokens _ = r at hrun ⊢
  generalize Scan.run tokens' _ = r' at hrun ⊢
  cases hrun with
  | ok => exact Or.inr ⟨_, _, _, rfl, rfl⟩
  | error code line => exact Or.inl ⟨_, _, rfl, rfl, code, line⟩

end Program

namespace Compile

/-- The same tables and counts, or failures that are handed on in the same form. -/
inductive Alike : Except Error Compiled → Except Error Compiled → Prop
  | compiled {c c' : Compiled} (program : c.program = c'.program) (scan : c.scan = c'.scan)
      (conversion : c.conversion = c'.conversion) : Alike (.ok c) (.ok c')
  | failed {e e' : Error} (diagnostic : e.diagnostic = e'.diagnostic) :
    Alike (.error e) (.error e')

/-- It is one whether lines end with a newline or with a return and a newline. -/
theorem source_withReturns (limits : Limits) (settings : Settings) (source : List UInt8) :
    Alike (Compile.source limits settings source).2
      (Compile.source limits settings (Source.withReturns source)).2 := by
  rw [source_eq_stages, source_eq_stages]
  rcases Source.tokenize_withReturns limits source with ⟨e, he, he'⟩ | ⟨t, t', ht, ht', htokens⟩
  · rw [stages_of_refused he, stages_of_refused he']
    exact .failed rfl
  rw [stages_of_tokenize ht, stages_of_tokenize ht']
  rcases Program.scan_alike htokens settings.scan limits.maxScopeDepth
      (.empty limits.maxSymbols limits.maxLexemes) with
    ⟨e, e', he, he', hcode, hline⟩ | ⟨program, notes, metrics, hscan, hscan'⟩
  · rw [scan_of_error he, scan_of_error he']
    refine .failed ?_
    simp only [Error.diagnostic, Error.code, Error.line, hcode, hline]
    rfl
  rw [scan_of_ok hscan, scan_of_ok hscan']
  cases hconvert :
    (Postfix.convertAll program.symbols settings.conversion program.lexemes).result with
  | error e =>
    rw [convert_of_error hconvert, convert_of_error hconvert]
    exact .failed rfl
  | ok conversion =>
    rw [convert_of_ok hconvert, convert_of_ok hconvert]
    exact .compiled rfl rfl rfl

end Compile
end Ttm
