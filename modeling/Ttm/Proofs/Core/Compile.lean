import Ttm.Proofs.Compile.Stages
import Ttm.Proofs.Core.Convert
import Ttm.Proofs.Core.Tables
import Ttm.Proofs.Source.Tokenize

/-! Compiling the core language: what is delivered computes what the source says. -/
namespace Ttm.Core

open Lexeme (Kind)
open Source (Token)
open Ttm.Symbol (Key Signature)

section

variable {limits : Limits} {settings : Settings} {source : List UInt8} {tokens : List Token}
  {fs : List Function} {trees : Structures} {scope : String} {s : Statement}

/-- A source that spells a program: the direct tokenizer finds its words. -/
def Spells (limits : Limits) (source : List UInt8) (fs : List Function) : Prop :=
  (Source.munch limits.maxStringLength 1 source).map (·.map (·.text)) =
    some ((words fs).map Word.spelling)

instance (limits : Limits) (source : List UInt8) (fs : List Function) :
    Decidable (Spells limits source fs) :=
  inferInstanceAs (Decidable (_ = _))

/-- The limits of a build are respected. -/
structure Respects (limits : Limits) (fs : List Function) : Prop where
  tokens : (words fs).length ≤ limits.maxTokenCount
  tables : Bounded limits.maxScopeDepth limits.maxSymbols limits.maxLexemes fs
  statements : Short fs

instance (limits : Limits) (fs : List Function) : Decidable (Respects limits fs) :=
  decidable_of_iff
    ((words fs).length ≤ limits.maxTokenCount ∧
      Bounded limits.maxScopeDepth limits.maxSymbols limits.maxLexemes fs ∧ Short fs)
    ⟨fun ⟨tokens, tables, statements⟩ => ⟨tokens, tables, statements⟩,
      fun h => ⟨h.tokens, h.tables, h.statements⟩⟩

/-- A source that spells a program is read as its words. -/
theorem tokenize_of_spells (hsource : Spells limits source fs) (hlimits : Respects limits fs) :
    ∃ tokens, Source.tokenize limits source = .ok tokens ∧
      tokens.tokens.map (·.text) = (words fs).map Word.spelling := by
  obtain ⟨tokens, hmunch, htext⟩ := Option.map_eq_some_iff.mp hsource
  have hcount : tokens.length ≤ limits.maxTokenCount := by
    have hlength := congrArg List.length htext
    rw [List.length_map, List.length_map] at hlength
    exact hlength ▸ hlimits.tokens
  obtain ⟨lexical, hread⟩ := Source.tokenize_of_munch hmunch hcount
  exact ⟨_, hread, htext⟩

/-- A structured program is compiled, each of its expressions into the postfix order of its
structure. -/
theorem source_of_structured (h : WellFormed fs) (hs : WellStructured trees fs)
    (hsource : Spells limits source fs) (hlimits : Respects limits fs) :
    ∃ compiled, (Compile.source limits settings source).2 = .ok compiled ∧
      List.Forall₂ (Stands compiled.program.symbols) (converted trees fs)
        compiled.program.lexemes.toList := by
  obtain ⟨tokens, hread, htext⟩ := tokenize_of_spells hsource hlimits
  obtain ⟨program, metrics, notes, hscan, hstands⟩ := scan_output h hs hlimits.tables htext
  obtain ⟨⟨conversion, hresult⟩, hconverted⟩ := convertAll_output hs hlimits.statements hstands
  exact ⟨_, Compile.source_eq_stages.trans ((Compile.stages_of_tokenize hread).trans
    ((Compile.scan_of_ok hscan).trans (Compile.convert_of_ok hresult))), hconverted⟩

/-- The structure that the grammar gives. -/
def grammar : Structures := fun scope s => .ofSum (s.expression.tree scope)

theorem structured_grammar (h : s.expression.SimpleSigns) : Structured grammar scope s :=
  ⟨Expr.proper_tree scope s.expression, s.expression.reads_words scope h⟩

/-- Every sign stands in front of a literal or a variable. -/
def SimpleSigns (fs : List Function) : Prop :=
  ∀ f ∈ fs, ∀ s ∈ f.body, s.expression.SimpleSigns

/-- A program of the core language is compiled, and each of its expressions computes its value in
postfix order. -/
theorem source_computes (h : WellFormed fs) (hsigns : SimpleSigns fs)
    (hsource : Spells limits source fs) (hlimits : Respects limits fs) :
    ∃ compiled, (Compile.source limits settings source).2 = .ok compiled ∧
      List.Forall₂ (Stands compiled.program.symbols) (converted grammar fs)
        compiled.program.lexemes.toList ∧
      ∀ (V : Type) (m : Meaning V), ∀ f ∈ fs, ∀ s ∈ f.body,
        run m (s.code grammar f.name) [] = some [s.expression.value m f.name] := by
  have hs : WellStructured grammar fs := fun f hf s hs => structured_grammar (hsigns f hf s hs)
  obtain ⟨compiled, hcompiled, hstands⟩ := source_of_structured h hs hsource hlimits
  refine ⟨compiled, hcompiled, hstands, fun V m f _ s _ => ?_⟩
  exact s.expression.run_postfixWords m f.name []

end

attribute [local instance] Limits.development

/-- A function that calls no other, and the entry point that calls it; both with signs. -/
def smallProgram : List Function :=
  [ { type := .i32
      name := "f"
      parameters := [⟨.i32, "a"⟩]
      locals := []
      body := [.ret (.ofProduct (.multiply (.ofFactor (.negate (.var "a"))) ⟨.star, rfl⟩
        (.group (.add (.ofProduct (.ofFactor (.var "a"))) ⟨.plus, rfl⟩
          (.ofFactor (.integer "2"))))))] },
    { type := .i32
      name := "main"
      parameters := []
      locals := [⟨.i32, "x"⟩]
      body :=
        [ .assign "x" (.ofProduct (.ofFactor (.call "f"
            (.ofSum (.ofProduct (.ofFactor (.negate (.integer "1")))))))),
          .ret (.ofProduct (.ofFactor (.var "x"))) ] } ]

def smallSource : List UInt8 :=
  ("fn i32 f(i32 a) \x7b ret -a * (a + 2); \x7d " ++
    "fn i32 main() \x7b let i32 x; x = f(-1); ret x; \x7d").toList.map fun c => .ofNat c.toNat

theorem spells_smallSource : Spells .development smallSource smallProgram := by
  decide +kernel

theorem wellFormed_smallProgram : WellFormed smallProgram where
  distinct := by decide
  names := by decide
  entry := ⟨_, List.mem_cons_of_mem _ List.mem_cons_self, by decide⟩
  entryType := by decide
  functions := by
    rintro (_ | ⟨f, _ | ⟨g, before⟩⟩) h after hfs
    · obtain ⟨rfl, -⟩ := List.cons.inj hfs
      exact ⟨by decide, by decide, by decide, by decide, by decide⟩
    · obtain ⟨rfl, hrest⟩ := List.cons.inj hfs
      obtain ⟨rfl, -⟩ := List.cons.inj hrest
      exact ⟨by decide, by decide, by decide, by decide, by decide⟩
    · obtain ⟨-, hrest⟩ := List.cons.inj hfs
      obtain ⟨-, hnil⟩ := List.cons.inj hrest
      exact absurd hnil.symm (by simp)

instance (fs : List Function) : Decidable (SimpleSigns fs) :=
  inferInstanceAs (Decidable (∀ f ∈ fs, ∀ s ∈ f.body, s.expression.SimpleSigns))

theorem respects_smallProgram : Respects .development smallProgram := by
  decide +kernel

theorem source_computes_smallSource :
    ∃ compiled, (Compile.source .development {} smallSource).2 = .ok compiled ∧
      List.Forall₂ (Stands compiled.program.symbols) (converted grammar smallProgram)
        compiled.program.lexemes.toList ∧
      ∀ (V : Type) (m : Meaning V), ∀ f ∈ smallProgram, ∀ s ∈ f.body,
        run m (s.code grammar f.name) [] = some [s.expression.value m f.name] :=
  source_computes wellFormed_smallProgram (by decide) spells_smallSource respects_smallProgram

end Ttm.Core
