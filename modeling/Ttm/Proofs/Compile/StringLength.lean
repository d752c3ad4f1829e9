import Ttm.Proofs.Compile.Strings
import Ttm.Proofs.Source.Enclosed

/-!
How long a string literal may be. The limit is one on what stands between the quotes: with both of
them a literal takes up to two bytes more.
-/
namespace Ttm.Compile

open Source (Munch.inQuotes runs)
open Source.Delimited (Enclosed PlainSubstitutes ofSource)

section

variable {limits : Limits} {settings : Settings} {source : List UInt8} {compiled : Compiled}
  {text : String}

theorem fits_of_source (h : (Compile.source limits settings source).2 = .ok compiled) :
    ∀ r ∈ runs source, r.Fits limits.maxStringLength := by
  obtain ⟨tokens, program, notes, metrics, conversion, htokens, hscan, -⟩ := stages_of_source h
  have hresult : (Program.scan settings.scan limits.maxScopeDepth tokens.tokens
      (.empty limits.maxSymbols limits.maxLexemes)).result = .ok metrics := by rw [hscan]
  have hlexemes := (Program.strings_of_scan hresult).1
  have hquotes := Source.quotesClosed_of_tokenize htokens fun token ht => (hlexemes token ht).1
  obtain ⟨-, hfits⟩ := @Source.runs_of_munch limits _ _ _ _
    (Source.munch_of_tokenize hquotes htokens).1
  exact hfits

/-- The content of a string literal is within the limit: that of every literal of a source that is
compiled, and all that stands between two quotes of one segment, whatever the limit and whichever
bytes are quotes, if none is put in the place of another byte. In the language a literal of any
content up to the limit is copied. -/
theorem content_within_limit :
    (∀ limits settings source compiled, (Compile.source limits settings source).2 = .ok compiled →
      ∀ r ∈ runs source, r.Fits limits.maxStringLength) ∧
    (∀ t, PlainSubstitutes t → ∀ maxString source text metrics,
      ofSource t maxString source = (.ok text, metrics) → Enclosed t maxString text) ∧
    ∀ maxString content, (∀ c ∈ content, Munch.inQuotes c) →
      ((∃ metrics, ofSource .standard maxString (Byte.quote :: (content ++ [Byte.quote])) =
        (.ok (Byte.quote :: (content ++ [Byte.quote])), metrics)) ↔ content.length ≤ maxString) :=
  ⟨fun _ _ _ _ => fits_of_source, fun _ ht _ _ _ _ => Source.Delimited.enclosed_ofSource ht,
    fun _ _ => Source.Delimited.ofSource_literal_iff⟩

/-- The program that says `text` and ends. -/
def saying (text : String) : List Core.Function :=
  [{ type := .i32
     name := "main"
     parameters := []
     locals := []
     body := [.echo (.ofProduct (.ofFactor (.text text)))] }]

theorem wellFormed_saying (hne : text ≠ "") (hquote : '\'' ∉ text.toList) :
    Core.WellFormed (saying text) :=
  Core.wellFormed_singleton rfl rfl
    { type := nofun
      types := nofun
      names := nofun
      distinct := List.nodup_singleton _
      uses := List.forall_mem_singleton.mpr ⟨⟨hne, hquote⟩, trivial⟩ }

end

attribute [local instance] Limits.development

/-- One byte more than there is room for between two quotes within the limit. -/
def longText : String := String.ofList (List.replicate 254 'a')

def longSource : List UInt8 :=
  (("fn i32 main() \x7b echo '".toList.map fun c => .ofNat c.toNat) ++ List.replicate 254 0x61) ++
    "'; \x7d".toList.map fun c => .ofNat c.toNat

theorem spells_longSource : Core.Spells .development longSource (saying longText) := by
  decide +kernel

theorem wellFormed_saying_longText : Core.WellFormed (saying longText) := by
  have hlist : longText.toList = List.replicate 254 'a' := String.toList_ofList
  refine wellFormed_saying (fun hempty => ?_) (fun hquote => ?_)
  · rw [hempty] at hlist
    cases hlist
  · rw [hlist] at hquote
    exact absurd (List.eq_of_mem_replicate hquote) (by decide)

theorem respects_saying_longText : Core.Respects .development (saying longText) := by
  decide +kernel

theorem source_longSource :
    ∃ compiled, (Compile.source .development {} longSource).2 = .ok compiled := by
  have hsigns : Core.SimpleSigns (saying longText) := by decide +kernel
  obtain ⟨compiled, hok, -⟩ := @Core.source_of_structured .development {} _ _ _
    wellFormed_saying_longText (fun f hf s hs => Core.structured_grammar (hsigns f hf s hs))
    spells_longSource respects_saying_longText
  exact ⟨compiled, hok⟩

theorem content_within_limit_longSource :
    (∃ compiled, (Compile.source .development {} longSource).2 = .ok compiled ∧
      ∀ r ∈ runs longSource, r.Fits 255) ∧
    ∃ metrics, ofSource .standard 3 [0x27, 0x61, 0x62, 0x27] =
        (.ok [0x27, 0x61, 0x62, 0x27], metrics) ∧
      Enclosed .standard 3 [0x27, 0x61, 0x62, 0x27] := by
  obtain ⟨hsource, henclosed, hcopied⟩ := content_within_limit
  obtain ⟨compiled, hok⟩ := source_longSource
  obtain ⟨metrics, hcopy⟩ := (hcopied 3 [0x61, 0x62] (by decide +kernel)).mpr (by decide)
  exact ⟨⟨compiled, hok, hsource _ _ _ _ hok⟩, metrics, hcopy,
    henclosed _ Source.Delimited.plainSubstitutes_standard _ _ _ _ hcopy⟩

/-- With both quotes a literal may be longer than the limit. Where a blank is replaced by a quote,
what was left open past the limit is closed by it. -/
theorem not_within_both_quotes :
    (∃ compiled, (Compile.source .development {} longSource).2 = .ok compiled ∧
      (runs longSource).map (fun r => (r.closed, r.content.length + 2)) = [(true, 256)]) ∧
    (ofSource .standard 3 [0x27, 0x61, 0x62, 0x27]).1 = .ok [0x27, 0x61, 0x62, 0x27] ∧
    ∃ t, (ofSource t 3 [0x27, 0x61, 0x62, 0x63, 0x64, 0x20]).1 =
        .ok [0x27, 0x61, 0x62, 0x63, 0x64, 0x27] ∧
      ¬ Enclosed t 3 [0x27, 0x61, 0x62, 0x63, 0x64, 0x27] := by
  obtain ⟨compiled, hok⟩ := source_longSource
  refine ⟨⟨compiled, hok, by decide +kernel⟩, by decide +kernel,
    ByteTable.standard.set (.substitute Byte.quote) 0x20, by decide +kernel, fun h => ?_⟩
  exact absurd (h _ (by decide +kernel) 0x27 [0x61, 0x62, 0x63, 0x64] 0x27 rfl (by decide +kernel)
    (by decide +kernel)) (by decide)

end Ttm.Compile
