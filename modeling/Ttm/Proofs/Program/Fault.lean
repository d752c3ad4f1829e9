import Ttm.Proofs.Program.Nesting
import Ttm.Proofs.Program.Raise

/-! Which actions of a scan fail for the nesting of brackets. -/
namespace Ttm.Program

open Lexeme (Kind)
open Source (Token)

/-- Errors found at a bracket, because of those before it. -/
def Error.isNesting : Error → Bool
  | .unbalancedBrackets _ (some _) | .scopeTooDeep .. => true
  | _ => false

namespace Scan

variable {limits : Limits} {s t : State} {e : Error} {token : Token} {called : Bool}

/-- How a bracket fails. -/
inductive Unfit (token : Token) (s : State) : Error → Prop
  | tooDeep (hk : token.opens) (hd : s.scopes.maxDepth ≤ s.scopes.depth) :
    Unfit token s (.scopeTooDeep s.scopes.maxDepth token.line)
  | unopened {detail : String} (hk : token.closes) (hd : s.scopes.depth = 0) :
    Unfit token s (.unbalancedBrackets detail (some token.line))

theorem unfit_of_enterScope (hk : token.opens)
    (h : enterScope token.line s = .error e t) : Unfit token s e := by
  unfold enterScope at h
  split at h
  · cases h
  · next hs =>
    cases h
    obtain ⟨hd, hmax⟩ := Scopes.enter_eq_error hs
    cases hmax
    exact .tooDeep hk hd
  · next hs => cases (Scopes.enter_eq_error hs).2

theorem unfit_of_leaveScope (hk : token.closes)
    (h : leaveScope token.line s = .error e t) : Unfit token s e := by
  unfold leaveScope at h
  split at h
  · cases h
  · next hs =>
    cases h
    exact .unopened hk (Scopes.exit_eq_error hs)

theorem unfit_of_scanToken (h : scanToken token called s = .error e t) (he : e.ofBrackets) :
    Unfit token s e := by
  have hother {a : Action Unit} {u : State} (ha : Raises (Ordinary token.line) a) :
      a u ≠ .error e t := by
    intro hfail
    rw [(ha.error _ _ _ hfail).1.2] at he
    cases he
  by_cases hopen : token.opens
  · obtain ⟨k, hk, hb⟩ := Token.opens_iff.mp hopen
    rw [scanToken_of_opening hk hb] at h
    rcases bind_eq_error.mp h with h | ⟨_, _, -, h⟩
    · exact unfit_of_enterScope hopen h
    · exact absurd h (hother raises_emit)
  by_cases hclose : token.closes
  · obtain ⟨k, hk, hb⟩ := Token.closes_iff.mp hclose
    rw [scanToken_of_closing hk hb] at h
    rcases bind_eq_error.mp h with h | ⟨_, _, -, h⟩
    · exact unfit_of_leaveScope hclose h
    · exact absurd h (hother raises_emit)
  refine absurd h (hother (raises_scanToken_of_ne fun k hk => ⟨fun hb => ?_, fun hb => ?_⟩))
  · exact hopen (Token.opens_iff.mpr ⟨k, hk, hb⟩)
  · exact hclose (Token.closes_iff.mpr ⟨k, hk, hb⟩)

end Scan

variable {limits : Limits} {settings : ScanSettings} {maxDepth : Nat} {tokens : List Token}
  {p : Program} {e : Error}

theorem isNesting_of_line (h : e.line = none) : e.isNesting = false := by
  cases e with
  | unbalancedBrackets detail line =>
    cases line with
    | none => rfl
    | some line => cases h
  | scopeTooDeep => cases h
  | _ => rfl

/-- A scan fails for brackets at one of them, in front of which the scopes are as deep as the
brackets before it, or in the check at the end. -/
theorem bracketFailure_of_scan (h : (scan settings maxDepth tokens p).result = .error e)
    (he : e.ofBrackets) :
    (∃ done token rest u, tokens = done ++ token :: rest ∧ Follows maxDepth done u ∧
      Scan.Unfit token u e) ∨
    ∃ n symbols t, p.symbols.registerLibrary = (.ok n, symbols) ∧
      Scan.scanTokens tokens (.begin settings maxDepth symbols p.lexemes) = .ok () t ∧
      Scan.checkStructure t.program.lexemes = .error e := by
  rcases failure_of_scan h with ⟨cause, rfl⟩ | ⟨_, symbols, t, -, hrun⟩ | hcheck
  · rw [Scan.ordinary_ofTableError.2] at he
    cases he
  · obtain ⟨done, token, rest, u, rfl, hu, hfail⟩ :=
      Scan.scanTokens_failure (fun _ _ _ _ _ => Follows.step) follows_begin hrun
    exact Or.inl ⟨done, token, rest, u, rfl, hu, Scan.unfit_of_scanToken hfail he⟩
  · exact Or.inr hcheck

theorem Error.ofBrackets_of_isNesting (h : e.isNesting) : e.ofBrackets := by
  unfold isNesting at h
  split at h <;> first | rfl | cases h

/-- Where a scan fails for the nesting of brackets, it fails at one of them. -/
theorem unfit_of_scan (h : (scan settings maxDepth tokens p).result = .error e) (he : e.isNesting) :
    ∃ done token rest u, tokens = done ++ token :: rest ∧ Follows maxDepth done u ∧
      Scan.Unfit token u e := by
  rcases bracketFailure_of_scan h (Error.ofBrackets_of_isNesting he) with
    hunfit | ⟨n, symbols, t, -, -, hcheck⟩
  · exact hunfit
  · rw [isNesting_of_line (Scan.line_checkStructure hcheck)] at he
    cases he

end Ttm.Program
