import Ttm.Proofs.Program.Effect
import Ttm.Proofs.Program.FirstReference

/-! Where a scan puts its symbols, and what stands there in front of a declared name. -/
namespace Ttm

open Lexeme (Kind)
open Source (Token)

/-- What announces symbols of a kind, and how many lexemes before their names. -/
def SymbolKind.announcement? : SymbolKind → Option (Nat × Kind)
  | .function => some (2, .fnWord)
  | .var => some (2, .letWord)
  | .parameter => some (1, .datatype)
  | .literal | .unknown => none

namespace Program

/-- In front of a name that is declared stands what announces symbols of its kind. -/
def Announced (p : Program) : Prop :=
  ∀ i x n back k, p.symbols.get? i = some x → x.kind.announcement? = some (back, k) →
    x.position = some n → ∃ d, n = d + back ∧ p.lexemes.kinds[d]? = some k

/-- Every symbol with a position is at its first use there, and is announced if it is declared. -/
structure Placed (p : Program) : Prop where
  linked : p.Linked
  first : ∀ i x n, p.symbols.get? i = some x → x.position = some n → FirstReference p.lexemes i n
  announced : Announced p

variable {settings : ScanSettings} {limits : Limits} {p u : Program} {s t : Scan.State}
  {token : Token} {called : Bool} {kind : SymbolKind} {k : Kind}
  {back d n maxDepth maxSymbols maxLexemes : Nat} {symbols : Symbol.Table} {tokens : List Token}
  {metrics : Metrics}

theorem Grows.kinds (h : Grows p u) (hk : p.lexemes.kinds[d]? = some k) :
    u.lexemes.kinds[d]? = some k := by
  rw [Lexeme.Table.getElem?_kinds, Option.map_eq_some_iff] at hk ⊢
  obtain ⟨l, hl, hk⟩ := hk
  exact ⟨l, h.lexeme hl, hk⟩

theorem Scan.announced_of_declarationKind? (h : s.declarationKind? = some kind)
    (ha : kind.announcement? = some (back, k)) :
    ∃ d, s.program.lexemes.size = d + back ∧ s.program.lexemes.kinds[d]? = some k := by
  simp only [State.declarationKind?] at h
  split at h
  · next hfunction =>
    cases h
    cases ha
    exact Lexeme.Table.kindFromEnd?_eq_some.mp (beq_iff_eq.mp hfunction)
  · split at h
    · next hvariable =>
      cases h
      cases ha
      exact Lexeme.Table.kindFromEnd?_eq_some.mp (beq_iff_eq.mp hvariable)
    · split at h
      · next hdatatype =>
        cases h
        cases ha
        exact Lexeme.Table.kindFromEnd?_eq_some.mp (beq_iff_eq.mp hdatatype)
      · cases h

/-- An accepted token keeps what is known of the names declared before, and announces its own. -/
theorem Announced.step (h : Announced s.program) (hready : Scan.Ready s)
    (hs : Scan.Step token called s t) : Announced t.program := by
  have hgrows := (hs.grows hready).1
  intro i x n back k hx hk hn
  have hold (hx : s.program.symbols.get? i = some x) :
      ∃ d, n = d + back ∧ t.program.lexemes.kinds[d]? = some k := by
    obtain ⟨d, hd, hkind⟩ := h i x n back k hx hk hn
    exact ⟨d, hd, hgrows.kinds hkind⟩
  cases hs.effect with
  | opening _ _ _ _ hsymbols | closing _ _ _ _ hsymbols => exact hold (hsymbols ▸ hx)
  | declaring _ hd _ _ _ hsymbols =>
    rw [hsymbols] at hx
    rcases Symbol.Table.get?_add_eq_some hx with hx | ⟨-, rfl⟩
    · exact hold hx
    · rw [Scan.position_declaration] at hn
      obtain rfl := Option.some.inj hn
      obtain ⟨d, hsize, hkind⟩ := Scan.announced_of_declarationKind? hd hk
      exact ⟨d, hsize, hgrows.kinds hkind⟩
  | still _ _ _ _ _ _ hsymbols =>
    rcases hsymbols with hsymbols | ⟨literal, hliteral, hsymbols⟩
    · exact hold (hsymbols ▸ hx)
    · rw [hsymbols] at hx
      rcases Symbol.Table.get?_add_eq_some hx with hx | ⟨-, rfl⟩
      · exact hold hx
      · rw [hliteral] at hk
        cases hk

theorem position_library : ∀ x ∈ Symbol.Signature.library, x.position = none := by decide

theorem announced_library
    (h : (Symbol.Table.empty maxSymbols).registerLibrary = (.ok n, symbols)) :
    Announced ⟨symbols, .empty maxLexemes⟩ := by
  intro i x m back k hx _ hm
  rw [position_library x (Symbol.Table.mem_library h hx)] at hm
  cases hm

/-- The symbols of the library have no position; the others stand at their first use. -/
theorem FirstReferenced.placed (h : FirstReferenced p) (hlinked : p.Linked)
    (hannounced : Announced p) : Placed p := by
  refine ⟨hlinked, fun i x n hx hn => ?_, hannounced⟩
  rcases Nat.lt_or_ge i 5 with hi | hi
  · have hmem : x ∈ Symbol.Signature.library := by
      rw [← h.library]
      rw [Symbol.Table.get?_eq_getElem?] at hx
      exact List.mem_of_getElem? ((List.getElem?_take_of_lt hi).trans hx)
    rw [position_library x hmem] at hn
    cases hn
  · obtain ⟨q, hq, hfirst⟩ := h.position i x hi hx
    obtain rfl := Option.some.inj (hq.symm.trans hn)
    exact hfirst

theorem placed_of_scan
    (h : (scan settings maxDepth tokens (empty maxSymbols maxLexemes)).result = .ok metrics) :
    Placed (scan settings maxDepth tokens (empty maxSymbols maxLexemes)).program := by
  obtain ⟨n, symbols, t, hr, hs, -, hscan⟩ := steps_of_scan h
  rw [hscan]
  have htraced := ((ready_library hr).grows hs).traced (traced_library hr)
  have hrun := Scan.scanTokens_induction
    (P := fun u => Scan.Ready u ∧ Announced u.program)
    (fun _ _ _ _ hu hstep => ⟨hu.1.step hstep, hu.2.step hu.1 hstep⟩)
    ⟨ready_library hr, announced_library hr⟩ hs
  exact htraced.firstReferenced.placed htraced.linked hrun.2

end Program
end Ttm
