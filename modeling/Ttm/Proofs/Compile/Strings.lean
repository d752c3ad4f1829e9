import Ttm.Proofs.Core.Compile
import Ttm.Proofs.Postfix.Operands
import Ttm.Proofs.Program.Text
import Ttm.Proofs.Source.Broken

/-! What becomes of the quoted runs of a source when it is compiled. -/
namespace Ttm.Compile

open Ttm.Program (HasValue literalLexemes stringLexemes)
open Source (Run Token runs)

/-- The quoted runs of a source are closed on their lines, not empty and not too long, and the
string lexemes of a program stand for their contents, one by one. -/
structure StringsKept (maxString : Nat) (source : List UInt8) (p : Program) : Prop where
  closed : ∀ r ∈ runs source, r.closed ∧ 1 ≤ r.content.length ∧ r.content.length ≤ maxString
  lexemes : List.Forall₂ (fun l (r : Run) => HasValue p.symbols l (.string r.text))
    (stringLexemes p) (runs source)

section

variable {limits : Limits} {settings : Settings} {source : List UInt8} {compiled : Compiled}
  {p : Program}

theorem stringLexemes_convertAll {settings : ConversionSettings} :
    stringLexemes { p with lexemes := (Postfix.convertAll p.symbols settings p.lexemes).lexemes } =
      stringLexemes p := by
  unfold stringLexemes literalLexemes
  rw [Postfix.literals_convertAll]

theorem length_of_text_ne {r : Run} (h : r.text ≠ "") : 1 ≤ r.content.length := by
  refine List.length_pos_of_ne_nil fun hnil => h ?_
  rw [Run.text, hnil]
  rfl

/-- Each quoted run of a source that is compiled is kept as it is, in its place among the others;
and no source with a run that is open, empty or too long is compiled. In a development build a run
holds up to 255 bytes. -/
theorem source_strings (h : (Compile.source limits settings source).2 = .ok compiled) :
    StringsKept limits.maxStringLength source compiled.program := by
  obtain ⟨tokens, program, notes, metrics, conversion, htokens, hscan, -, hcompiled⟩ :=
    stages_of_source h
  have hresult : (Program.scan settings.scan limits.maxScopeDepth tokens.tokens
      (.empty limits.maxSymbols limits.maxLexemes)).result = .ok metrics := by rw [hscan]
  obtain ⟨hlexemes, hstrings⟩ := Program.strings_of_scan hresult
  have hquotes := Source.quotesClosed_of_tokenize htokens fun token ht => (hlexemes token ht).1
  obtain ⟨htexts, hfits⟩ := Source.runs_of_munch (Source.munch_of_tokenize hquotes htokens).1
  rw [hscan, htexts, List.forall₂_map_right_iff] at hstrings
  refine ⟨fun r hr => ⟨(hfits r hr).1, length_of_text_ne fun hempty => ?_, (hfits r hr).2⟩, ?_⟩
  · have hmem : r.text ∈ tokens.tokens.filterMap Token.string? :=
      htexts ▸ List.mem_map_of_mem hr
    obtain ⟨token, htoken, hstring⟩ := List.mem_filterMap.mp hmem
    exact (hlexemes token htoken).2 (hempty ▸ hstring)
  · rw [hcompiled, stringLexemes_convertAll]
    exact hstrings

end

attribute [local instance] Limits.development

/-- A program that says one text twice, the second time behind another one in a call. -/
def greeting : List Core.Function :=
  [{ type := .i32
     name := "main"
     parameters := []
     locals := [⟨.str, "s"⟩]
     body :=
      [ .assign "s" (.ofProduct (.ofFactor (.text "a // é"))),
        .echo (.ofProduct (.ofFactor (.call "concat" (.append
          (.ofSum (.ofProduct (.ofFactor (.text "=;"))))
          (.ofProduct (.ofFactor (.text "a // é"))))))) ] }]

/-- The same, with a quote in a comment. -/
def greetingSource : List UInt8 :=
  ("fn i32 main() \x7b let str s; s = 'a // é'; // don't\n" ++
    "echo concat('=;', 'a // é'); \x7d").toList.map fun c => .ofNat c.toNat

theorem spells_greetingSource : Core.Spells .development greetingSource greeting := by
  decide +kernel

theorem wellFormed_greeting : Core.WellFormed greeting :=
  Core.wellFormed_singleton (by decide) rfl
    ⟨by decide, by decide, by decide, by decide, by decide⟩

theorem respects_greeting : Core.Respects .development greeting := by
  decide +kernel

theorem stringsKept_greeting : ∃ compiled,
    (Compile.source .development {} greetingSource).2 = .ok compiled ∧
      (runs greetingSource).map Run.text = ["a // é", "=;", "a // é"] ∧
      StringsKept 255 greetingSource compiled.program := by
  have hsigns : Core.SimpleSigns greeting := by decide
  obtain ⟨compiled, hok, -⟩ := @Core.source_of_structured .development {} _ _ _
    wellFormed_greeting (fun f hf s hs => Core.structured_grammar (hsigns f hf s hs))
    spells_greetingSource respects_greeting
  exact ⟨compiled, hok, by decide +kernel, source_strings hok⟩

end Ttm.Compile
