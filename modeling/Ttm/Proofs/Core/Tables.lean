import Ttm.Proofs.Core.Output
import Ttm.Proofs.Core.Text

/-! The tables that a well-formed program is scanned into. -/
namespace Ttm.Core

open Lexeme (Kind)
open Program.Scan (State)
open Source (Token)
open Ttm.Symbol (Declaration Key Signature)

/-- The keys of the library and of these words. -/
def keys (ws : List Word) : List Key := Signature.library.map Symbol.key ++ ws.filterMap Word.key?

/-- The words of a program with the signs written out. -/
def written (fs : List Function) : List Word := Signs.quiet.rewrite (words fs)

/-- The bounds of a scan are respected. -/
structure Bounded (maxDepth maxSymbols maxLexemes : Nat) (fs : List Function) : Prop where
  positive : 0 < maxDepth
  depth : ∀ f ∈ fs, ∀ s ∈ f.body, s.expression.depth < maxDepth
  lexemes : (written fs).length ≤ maxLexemes
  symbols : (keys (written fs)).dedup.length ≤ maxSymbols

instance (maxDepth maxSymbols maxLexemes : Nat) (fs : List Function) :
    Decidable (Bounded maxDepth maxSymbols maxLexemes fs) :=
  decidable_of_iff
    (0 < maxDepth ∧ (∀ f ∈ fs, ∀ s ∈ f.body, s.expression.depth < maxDepth) ∧
      (written fs).length ≤ maxLexemes ∧ (keys (written fs)).dedup.length ≤ maxSymbols)
    ⟨fun ⟨positive, depth, lexemes, symbols⟩ => ⟨positive, depth, lexemes, symbols⟩,
      fun h => ⟨h.positive, h.depth, h.lexemes, h.symbols⟩⟩

variable {settings : ScanSettings} {limits : Limits} {maxDepth maxSymbols maxLexemes : Nat}
  {fs : List Function} {ws : List Word} {tokens : List Token} {symbols : Symbol.Table}
  {trees : Structures}

theorem library_distinct : (Signature.library.map Symbol.key).Nodup := by decide

theorem library_names : ∀ x ∈ Signature.library, x.key = .name x.scope x.name := by decide

theorem length_dedup_keys {xs ys : List Word} (h : xs ⊆ ys) :
    (keys xs).dedup.length ≤ (keys ys).dedup.length := by
  have hsubset : (keys xs).dedup ⊆ (keys ys).dedup := by
    intro k hk
    rw [List.mem_dedup, keys, List.mem_append] at hk ⊢
    exact hk.imp_right fun hk => List.filterMap_subset Word.key? h hk
  exact ((List.nodup_dedup _).subperm hsubset).length_le

theorem five_le (h : (keys ws).dedup.length ≤ maxSymbols) : 5 ≤ maxSymbols := by
  have hsubset : Signature.library.map Symbol.key ⊆ (keys ws).dedup := by
    intro k hk
    exact List.mem_dedup.mpr (List.mem_append_left _ hk)
  have hlength := (library_distinct.subperm hsubset).length_le
  have hfive : (Signature.library.map Symbol.key).length = 5 := by decide
  omega

theorem fits_library {all : List Key} (hi : symbols.Indexed)
    (hlist : symbols.toList = Signature.library)
    (hsubset : Signature.library.map Symbol.key ⊆ all)
    (hroom : all.dedup.length ≤ symbols.capacity) : symbols.Fits all :=
  ⟨hi, by rw [Symbol.Table.keys, hlist]; exact library_distinct,
    by rw [Symbol.Table.keys, hlist]; exact hsubset, hroom⟩

theorem knows_library (hi : symbols.Indexed) (hlist : symbols.toList = Signature.library) :
    symbols.Knows libraryDeclarations := by
  have hkeys : symbols.keys = Signature.library.map Symbol.key := by
    rw [Symbol.Table.keys, hlist]
  constructor
  · intro d hd
    obtain ⟨x, hx, rfl⟩ := List.mem_map.mp hd
    have hmem : .name x.scope x.name ∈ symbols.keys := by
      rw [hkeys, ← library_names x hx]
      exact List.mem_map_of_mem hx
    cases hl : symbols.lookup x.scope x.name with
    | none => exact absurd hmem (hi.lookup_eq_none.mp hl)
    | some i =>
      obtain ⟨y, hy, hkey⟩ := hi.key_of_lookup hl
      have hyx : y = x := by
        have hylist : y ∈ Signature.library := hlist ▸ Symbol.Table.mem_toList_iff.mpr ⟨i, hy⟩
        exact List.inj_on_of_nodup_map library_distinct hylist hx
          (hkey.trans (library_names x hx).symm)
      exact ⟨i, y, rfl, hy, hkey, by rw [hyx]⟩
  · intro scope name hmem
    rw [hkeys] at hmem
    obtain ⟨x, hx, hkey⟩ := List.mem_map.mp hmem
    exact ⟨⟨x.scope, x.name, x.kind⟩, List.mem_map.mpr ⟨x, hx, rfl⟩,
      (library_names x hx).symm.trans hkey⟩

/-- The tokens of a text that can be read from its beginning are accepted. -/
theorem scanTokens_readable {q : Place}
    (h : Readable maxDepth (.behind [] Symbol.globalScope) ws q)
    (hlexemes : (Signs.quiet.rewrite ws).length ≤ maxLexemes)
    (hsymbols : (keys (Signs.quiet.rewrite ws)).dedup.length ≤ maxSymbols)
    (htext : tokens.map (·.text) = ws.map Word.spelling) :
    ∃ n symbols t, (Symbol.Table.empty maxSymbols).registerLibrary = (.ok n, symbols) ∧
      Program.Scan.scanTokens tokens (.begin settings maxDepth symbols (.empty maxLexemes)) =
        .ok () t ∧
      List.Forall₂ (Stands t.program.symbols) (Signs.quiet.rewrite ws)
        t.program.lexemes.toList := by
  obtain ⟨symbols, hregister, hi, hlist, hcapacity⟩ :=
    Symbol.Table.registerLibrary_empty (five_le hsymbols)
  have hbegin : At (keys (Signs.quiet.rewrite ws)) maxDepth (.behind [] Symbol.globalScope)
      Signs.quiet (.begin settings maxDepth symbols (.empty maxLexemes)) := by
    refine ⟨fits_library hi hlist (List.subset_append_left _ _) (hcapacity ▸ hsymbols), ?_, rfl,
      rfl, rfl, rfl, rfl⟩
    rw [Place.behind, List.flatMap_nil, List.append_nil]
    exact knows_library hi hlist
  have hsettled : Settled (Lexeme.Table.empty maxLexemes).kinds := by
    constructor <;> intro k hk <;> cases hk
  have hroom : (State.begin settings maxDepth symbols (.empty maxLexemes)).HasRoom
      (Signs.quiet.rewrite ws).length := by
    rw [State.HasRoom, ← Lexeme.Table.length_toList]
    exact Nat.le_trans (Nat.le_of_eq (Nat.zero_add _)) hlexemes
  obtain ⟨t, ht, -, hwrites⟩ := h.reads hbegin hsettled tokens htext
    ⟨List.subset_append_right _ _, hroom⟩
  refine ⟨2, symbols, t, hregister, ht, ?_⟩
  obtain ⟨ls, hls, hstands⟩ := hwrites.lexemes
  rw [hls]
  exact hstands

/-- Every token of a well-formed program is accepted. -/
theorem scanTokens_words (h : WellFormed fs)
    (hb : Bounded maxDepth maxSymbols maxLexemes fs)
    (htext : tokens.map (·.text) = (words fs).map Word.spelling) :
    ∃ n symbols t, (Symbol.Table.empty maxSymbols).registerLibrary = (.ok n, symbols) ∧
      Program.Scan.scanTokens tokens (.begin settings maxDepth symbols (.empty maxLexemes)) =
        .ok () t ∧
      List.Forall₂ (Stands t.program.symbols) (written fs)
        t.program.lexemes.toList := by
  obtain ⟨scope, hreadable⟩ := h.readable hb.positive hb.depth Symbol.globalScope
    (List.nil_append fs).symm
  exact scanTokens_readable hreadable hb.lexemes hb.symbols htext

/-- A structured program is accepted, and written as its structures say. -/
theorem scan_output (h : WellFormed fs) (hs : WellStructured trees fs)
    (hb : Bounded maxDepth maxSymbols maxLexemes fs)
    (htext : tokens.map (·.text) = (words fs).map Word.spelling) :
    ∃ program metrics notes,
      Program.scan settings maxDepth tokens (.empty maxSymbols maxLexemes) =
        ⟨program, notes, .ok metrics⟩ ∧
      List.Forall₂ (Stands program.symbols) (output trees fs) program.lexemes.toList := by
  obtain ⟨n, symbols, t, hregister, ht, hstands⟩ := scanTokens_words h hb htext
  rw [written, (reads_output hs).1] at hstands
  have hcheck : Program.Scan.checkStructure t.program.lexemes = .ok () := by
    rw [Program.Scan.checkStructure_eq_ok, Lexeme.Table.kinds, map_kind_of_stands hstands]
    exact ⟨mem_output_of_entry h.entry, count_eq_of_excess (excess_output (Or.inl rfl) hs),
      count_eq_of_excess (excess_output (Or.inr rfl) hs)⟩
  exact ⟨_, _, _, Program.scan_of_steps hregister ht hcheck, hstands⟩

end Ttm.Core
