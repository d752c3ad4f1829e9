import Ttm.Proofs.Core.Acceptance
import Ttm.Proofs.Program.EntryPoint

/-! The numbers that a program can return, and the numerals that it may not hold. -/
namespace Ttm.Core

open Lexeme (Kind)
open Source (Token)

/-- A program with a place for one statement, behind those of `function`. -/
structure Slot where
  before : List Function
  function : Function
  later : List Statement
  after : List Function

/-- The return of a number whose digits are given, with a sign if it is negative. -/
def Statement.returning (v : Int) (digits : String) : Statement :=
  .ret (.ofProduct (.ofFactor (if v < 0 then .negate (.integer digits) else .integer digits)))

namespace Slot

variable (slot : Slot)

def fill (s : Statement) : List Function :=
  slot.before ++ { slot.function with body := slot.function.body ++ s :: slot.later } :: slot.after

/-- The words in front of the digits that are returned. -/
def lead (v : Int) : List Word :=
  words slot.before ++ (slot.function.header ++
    (slot.function.body.flatMap (·.words slot.function.name) ++
      .mark .retWord :: if v < 0 then [Expr.minus] else []))

end Slot

/-- A function that differs in its body at most, and uses no more there. -/
structure Function.Covers (f g : Function) : Prop where
  eq : g = { f with body := g.body }
  uses : ∀ vars callees, (∀ s ∈ f.body, s.Uses vars callees) → ∀ s ∈ g.body, s.Uses vars callees

section

variable {slot : Slot} {s s' : Statement} {f g : Function} {fs gs : List Function} {v : Int}
  {digits : String} {token : Token} {called : Bool} {limit maxDepth maxSymbols maxLexemes : Nat}
  {tokens : List Token} {limits : Limits} {settings : Settings} {source : List UInt8}

theorem Function.Covers.refl : f.Covers f := ⟨rfl, fun _ _ h => h⟩

theorem forall₂_covers_refl : List.Forall₂ Function.Covers fs fs :=
  List.forall₂_same.mpr fun _ _ => .refl

theorem Function.Covers.name (h : f.Covers g) : g.name = f.name := by
  rw [h.eq]

theorem Function.Covers.isEntry (h : f.Covers g) : g.isEntry = f.isEntry := by
  rw [h.eq]
  rfl

theorem Function.Covers.wellFormed (h : f.Covers g) {callees : List String}
    (hf : f.WellFormed callees) : g.WellFormed callees := by
  obtain ⟨heq, huses⟩ := h
  generalize g.body = body at heq huses
  subst heq
  exact ⟨hf.type, hf.types, hf.names, hf.distinct, huses _ _ hf.uses⟩

theorem map_name_of_covers (h : List.Forall₂ Function.Covers fs gs) :
    gs.map (·.name) = fs.map (·.name) := by
  induction h with
  | nil => rfl
  | cons hf _ ih => rw [List.map_cons, List.map_cons, hf.name, ih]

theorem callees_of_covers (h : List.Forall₂ Function.Covers fs gs) : callees gs = callees fs := by
  have hfilter :
      List.Forall₂ Function.Covers (fs.filter (!·.isEntry)) (gs.filter (!·.isEntry)) := by
    induction h with
    | nil => exact .nil
    | cons hf _ ih =>
      rw [List.filter_cons, List.filter_cons, hf.isEntry]
      split
      · exact .cons hf ih
      · exact ih
  rw [callees, callees, map_name_of_covers hfilter]

theorem exists_of_covers {before after : List Function}
    (h : List.Forall₂ Function.Covers fs (before ++ g :: after)) :
    ∃ before' f after', fs = before' ++ f :: after' ∧ List.Forall₂ Function.Covers before' before ∧
      f.Covers g := by
  obtain ⟨before', rest, rfl, hbefore, hrest⟩ := forall₂_append_left h.flip
  cases hrest with
  | cons hf _ => exact ⟨before', _, _, rfl, hbefore.flip, hf⟩

/-- The bodies of functions may be replaced by others that use no more. -/
theorem WellFormed.of_covers (h : WellFormed fs) (hc : List.Forall₂ Function.Covers fs gs) :
    WellFormed gs := by
  have hback : ∀ g ∈ gs, ∃ f ∈ fs, f.Covers g := by
    intro g hg
    obtain ⟨before, after, rfl⟩ := List.append_of_mem hg
    obtain ⟨before', f, after', rfl, -, hf⟩ := exists_of_covers hc
    exact ⟨f, by simp, hf⟩
  refine ⟨?distinct, ?names, ?entry, ?entryType, ?functions⟩
  case distinct =>
    rw [map_name_of_covers hc]
    exact h.distinct
  case names =>
    intro g hg
    obtain ⟨f, hf, hfg⟩ := hback g hg
    rw [hfg.isEntry, hfg.name]
    exact h.names f hf
  case entry =>
    obtain ⟨f, hf, hentry⟩ := h.entry
    obtain ⟨before, after, rfl⟩ := List.append_of_mem hf
    obtain ⟨before', rest, rfl, -, hrest⟩ := forall₂_append_left hc
    cases hrest with
    | cons hfg _ => exact ⟨_, by simp, hfg.isEntry ▸ hentry⟩
  case entryType =>
    intro g hg hentry
    obtain ⟨f, hf, hfg⟩ := hback g hg
    rw [hfg.eq]
    exact h.entryType f hf (hfg.isEntry ▸ hentry)
  case functions =>
    rintro before g after rfl
    obtain ⟨before', f, after', rfl, hbefore, hfg⟩ := exists_of_covers hc
    rw [callees_of_covers hbefore]
    exact hfg.wellFormed (h.functions before' f after' rfl)

namespace Slot

/-- A program stays well-formed when a statement that uses no more is put into the place of
another. -/
theorem wellFormed_fill (h : WellFormed (slot.fill s))
    (huses : ∀ vars callees, s.Uses vars callees → s'.Uses vars callees) :
    WellFormed (slot.fill s') := by
  refine h.of_covers (List.rel_append forall₂_covers_refl (.cons ⟨rfl, ?_⟩ forall₂_covers_refl))
  intro vars callees hbody
  rw [List.forall_mem_append, List.forall_mem_cons] at hbody ⊢
  exact ⟨hbody.1, huses vars callees hbody.2.1, hbody.2.2⟩

theorem simpleSigns_fill (h : SimpleSigns (slot.fill s)) (hs : s'.expression.SimpleSigns) :
    SimpleSigns (slot.fill s') := by
  unfold SimpleSigns fill at h ⊢
  rw [List.forall_mem_append, List.forall_mem_cons, List.forall_mem_append,
    List.forall_mem_cons] at h ⊢
  exact ⟨h.1, ⟨h.2.1.1, hs, h.2.1.2.2⟩, h.2.2⟩

/-- The digits stand behind the lead. -/
theorem words_fill (slot : Slot) (v : Int) (digits : String) :
    ∃ rest, words (slot.fill (.returning v digits)) =
      slot.lead v ++ .integer digits :: rest := by
  refine ⟨semicolon :: (slot.later.flatMap (·.words slot.function.name) ++ .mark .closeBrace ::
    words slot.after), ?_⟩
  have hheader (body : List Statement) :
      ({ slot.function with body } : Function).header = slot.function.header := rfl
  have hwords : (Statement.returning v digits).words slot.function.name =
      .mark .retWord :: (if v < 0 then [Expr.minus] else []) ++ [.integer digits, semicolon] := by
    by_cases hv : v < 0 <;>
      simp [Statement.returning, Statement.words, Statement.lead, Statement.expression, Expr.words,
        hv]
  simp [fill, words, lead, Function.words, hheader, hwords]

/-- The lead can be read. -/
theorem readable_lead (h : WellFormed (slot.fill s)) (hlimit : 0 < limit)
    (hdepth : ∀ f ∈ slot.fill s', ∀ s ∈ f.body, s.expression.depth < limit) (v : Int) :
    ∃ q, Readable limit (.behind [] Symbol.globalScope) (slot.lead v) q := by
  have hsplit : slot.fill s = slot.before ++
      { slot.function with body := slot.function.body ++ s :: slot.later } :: slot.after := rfl
  rw [fill, List.forall_mem_append, List.forall_mem_cons, List.forall_mem_append] at hdepth
  obtain ⟨hbefore, ⟨hearlier, -⟩, -⟩ := hdepth
  have hbetween : slot.fill s = [] ++ slot.before ++
      { slot.function with body := slot.function.body ++ s :: slot.later } :: slot.after := rfl
  obtain ⟨scope, hfunctions⟩ := h.readable_functions hlimit Symbol.globalScope hbetween hbefore
  have huses := (h.functions _ _ _ hsplit).uses
  rw [List.forall_mem_append] at huses
  have hsign {p : Place} : ∃ q, Readable limit p (if v < 0 then [Expr.minus] else []) q := by
    split
    · exact ⟨_, .arithmetic rfl .done⟩
    · exact ⟨_, .done⟩
  obtain ⟨q, hq⟩ := hsign
  refine ⟨q, hfunctions _ _ (h.readable_header hsplit hlimit scope ?_)⟩
  refine Function.readable_statements rfl (h.offers hsplit scope).nest huses.1 rfl hearlier ?_
  exact .plain (by decide) (Or.inl rfl) (by decide) hq

end Slot

namespace Statement

/-- Digits in range may be returned, with a sign and without. -/
theorem uses_returning (hdigits : Lexeme.isInteger digits.toList)
    (hmax : decimal digits ≤ Program.Scan.maxInteger) (vars callees : List String) :
    (returning v digits).Uses vars callees := by
  refine ⟨?_, trivial⟩
  by_cases hv : v < 0 <;>
    simpa [returning, expression, Expr.Uses, hv] using And.intro hdigits hmax

theorem simpleSigns_returning : (returning v digits).expression.SimpleSigns := by
  by_cases hv : v < 0 <;> simp [returning, expression, Expr.SimpleSigns, Expr.isOperand, hv]

theorem value_returning (hvalue : decimal digits = v.natAbs) (text : String → Int)
    (var : String → String → Int) (call : String → List Int → Int) (scope : String) :
    (returning v digits).expression.value (integers text var call) scope = v := by
  by_cases hv : v < 0
  · simp [returning, expression, Expr.value, integers, hv, hvalue, abs_of_neg hv]
  · simpa [returning, expression, Expr.value, integers, hv, hvalue] using Int.not_lt.mp hv

end Statement

/-- Digits of a number that is too large are refused. -/
theorem scanToken_of_tooLarge {t : Program.Scan.State}
    (hdigits : Lexeme.isInteger token.text.toList)
    (h : Program.Scan.maxInteger < decimal token.text) :
    Program.Scan.scanToken token called t =
      Program.Scan.raise (.integerOutOfRange token.text token.line) t := by
  have hover : ¬ Nat.ofDigitChars 10 token.text.toList 0 ≤ Program.Scan.maxInteger :=
    Nat.not_le.mpr h
  rw [Program.Scan.scanToken, Lexeme.ofText?_of_isInteger hdigits]
  simp only [Program.Scan.scanInteger, Lexeme.decimal?_eq, if_neg hover]

/-- A program is refused at the digits of a number that is too large. -/
theorem scan_of_tooLarge {settings : ScanSettings} (h : WellFormed (slot.fill s))
    (hb : Bounded maxDepth maxSymbols maxLexemes (slot.fill (.returning v digits)))
    (hdigits : Lexeme.isInteger digits.toList) (hlarge : Program.Scan.maxInteger < decimal digits)
    (htext : tokens.map (·.text) =
      (words (slot.fill (.returning v digits))).map Word.spelling) :
    ∃ line, (Program.scan settings maxDepth tokens (.empty maxSymbols maxLexemes)).result =
      .error (.integerOutOfRange digits line) := by
  obtain ⟨rest, hwords⟩ := slot.words_fill v digits
  obtain ⟨q, hreadable⟩ := slot.readable_lead h hb.positive hb.depth v
  have hwritten : written (slot.fill (.returning v digits)) =
      Signs.quiet.rewrite (slot.lead v) ++
        (Signs.quiet.after (slot.lead v)).rewrite (.integer digits :: rest) := by
    rw [written, hwords, Signs.rewrite_append]
  have hlexemes : (Signs.quiet.rewrite (slot.lead v)).length ≤ maxLexemes := by
    have hlength := hb.lexemes
    rw [hwritten, List.length_append] at hlength
    omega
  have hsymbols : (keys (Signs.quiet.rewrite (slot.lead v))).dedup.length ≤ maxSymbols := by
    refine Nat.le_trans (length_dedup_keys ?_) hb.symbols
    rw [hwritten]
    exact List.subset_append_left _ _
  rw [hwords, List.map_append, List.map_cons] at htext
  obtain ⟨done, tail, rfl, hdone, htail⟩ := List.map_eq_append_iff.mp htext
  obtain ⟨token, behind, rfl, htoken, -⟩ := List.map_eq_cons_iff.mp htail
  have htext : token.text = digits := htoken
  subst htext
  obtain ⟨n, symbols, t, hregister, ht, -⟩ :=
    scanTokens_readable hreadable hlexemes hsymbols hdone
  have hcall : Program.Scan.opensCall (token :: behind) = false := by
    have hne : token.text ≠ "(" := by
      intro hopen
      rw [hopen] at hdigits
      cases hdigits
    simpa [Program.Scan.opensCall] using hne
  exact ⟨token.line, Program.result_of_scanTokens hregister ht hcall
    (Program.Scan.bind_eq_error.mpr (Or.inl (scanToken_of_tooLarge hdigits hlarge)))⟩

/-- Of the numbers of 32 bits all but the smallest can be returned: it is written as a sign behind
which the digits alone have to be in range. A numeral out of range is refused. -/
theorem source_returning (h : WellFormed (slot.fill (.returning 0 "0")))
    (hsigns : SimpleSigns (slot.fill (.returning 0 "0")))
    (hdigits : Lexeme.isInteger digits.toList) (hvalue : decimal digits = v.natAbs)
    (hsource : Spells limits source (slot.fill (.returning v digits)))
    (hlimits : Respects limits (slot.fill (.returning v digits))) :
    (-2147483648 < v → v ≤ 2147483647 →
      ∃ compiled, (Compile.source limits settings source).2 = .ok compiled ∧
        List.Forall₂ (Stands compiled.program.symbols)
          (converted grammar (slot.fill (.returning v digits)))
          compiled.program.lexemes.toList ∧
        ∀ text var call, run (integers text var call)
          ((Statement.returning v digits).code grammar slot.function.name) [] = some [v]) ∧
    (v ≤ -2147483648 ∨ 2147483647 < v →
      ∃ e, (Compile.source limits settings source).2 = .error e ∧ e.code.number = 127) := by
  constructor
  · intro hlow hhigh
    have hmax : decimal digits ≤ Program.Scan.maxInteger := by
      rw [hvalue, Program.Scan.maxInteger]
      omega
    have hfill : WellFormed (slot.fill (.returning v digits)) :=
      Slot.wellFormed_fill h fun vars callees _ =>
        Statement.uses_returning hdigits hmax vars callees
    have hsimple : SimpleSigns (slot.fill (.returning v digits)) :=
      Slot.simpleSigns_fill hsigns Statement.simpleSigns_returning
    obtain ⟨compiled, hok, hstands, -⟩ := source_computes hfill hsimple hsource hlimits
    refine ⟨compiled, hok, hstands, fun text var call => ?_⟩
    have hrun := (Statement.returning v digits).expression.run_postfixWords
      (integers text var call) slot.function.name []
    rwa [Statement.value_returning hvalue] at hrun
  · intro hrange
    have hlarge : Program.Scan.maxInteger < decimal digits := by
      rw [hvalue, Program.Scan.maxInteger]
      omega
    obtain ⟨tokens, hread, htext⟩ := tokenize_of_spells hsource hlimits
    obtain ⟨line, hscan⟩ := scan_of_tooLarge h hlimits.tables hdigits hlarge htext
    exact ⟨_, Compile.source_eq_stages.trans ((Compile.stages_of_tokenize hread).trans
      (Compile.scan_of_error hscan)), rfl⟩

end

attribute [local instance] Limits.development

/-- A program that only returns. -/
def bareSlot : Slot where
  before := []
  function := { type := .i32, name := "main", parameters := [], locals := [], body := [] }
  later := []
  after := []

def lowestSource : List UInt8 :=
  "fn i32 main() \x7b ret -2147483648; \x7d".toList.map fun c => .ofNat c.toNat

def aboveLowestSource : List UInt8 :=
  "fn i32 main() \x7b ret -02147483647; \x7d".toList.map fun c => .ofNat c.toNat

theorem wellFormed_bareSlot : WellFormed (bareSlot.fill (.returning 0 "0")) :=
  wellFormed_singleton (by decide) rfl ⟨by decide, by decide, by decide, by decide, by decide⟩

theorem spells_lowestSource : Spells .development lowestSource
    (bareSlot.fill (.returning (-2147483648) "2147483648")) := by
  decide +kernel

theorem spells_aboveLowestSource : Spells .development aboveLowestSource
    (bareSlot.fill (.returning (-2147483647) "02147483647")) := by
  decide +kernel

theorem respects_lowest :
    Respects .development (bareSlot.fill (.returning (-2147483648) "2147483648")) := by
  decide +kernel

theorem respects_aboveLowest :
    Respects .development (bareSlot.fill (.returning (-2147483647) "02147483647")) := by
  decide +kernel

theorem source_returning_bareSlot :
    (∃ compiled, (Compile.source .development {} aboveLowestSource).2 = .ok compiled ∧
      List.Forall₂ (Stands compiled.program.symbols)
        (converted grammar (bareSlot.fill (.returning (-2147483647) "02147483647")))
        compiled.program.lexemes.toList ∧
      ∀ text var call, run (integers text var call)
        ((Statement.returning (-2147483647) "02147483647").code grammar "main") [] =
          some [-2147483647]) ∧
    ∃ e, (Compile.source .development {} lowestSource).2 = .error e ∧ e.code.number = 127 :=
  ⟨(source_returning wellFormed_bareSlot (by decide) (by decide) (by decide +kernel)
      spells_aboveLowestSource respects_aboveLowest).1 (by decide) (by decide),
    (source_returning wellFormed_bareSlot (by decide) (by decide) (by decide +kernel)
      spells_lowestSource respects_lowest).2 (Or.inl (by decide))⟩

end Ttm.Core
