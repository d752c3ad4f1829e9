import Ttm.Proofs.Compile.Stages
import Ttm.Proofs.Lexeme.Rows
import Ttm.Proofs.Postfix.Completed

/-! Where the lexemes of a converted table come from. -/
namespace Ttm

namespace Postfix

open Lexeme (Kind)
open Lexeme.Table (InOrder)

/-- The lexeme at `i` of a converted table comes from place `j`: outside of statements from its own
place, and within a statement from a place in it. -/
inductive Origin (symbols : Symbol.Table) (t : Lexeme.Table) (i j : Nat) : Prop
  | outside (hi : ∀ s ∈ starts symbols t, ¬ Inside t s i) (hj : j = i)
  | inside {s : Nat} (hs : s ∈ starts symbols t) (hi : Inside t s i) (hj : Inside t s j)

/-- In postfix order the lexemes of each statement keep the order of their lines. -/
def StatementsInOrder [Limits] (symbols : Symbol.Table) (t : Lexeme.Table) : Prop :=
  ∀ s ∈ starts symbols t, ∀ span reordered, statementAt? t s = some span →
    ofStatement symbols span = .ok reordered → InOrder reordered

variable {limits : Limits} {symbols : Symbol.Table} {t u : Lexeme.Table} {metrics : Metrics}
  {l : Lexeme} {i i' j j' n r s : Nat} {span reordered : List Lexeme}

theorem Completed.statement (h : Completed symbols t u metrics) (hs : s ∈ starts symbols t) :
    ∃ span reordered, statementAt? t s = some span ∧ ofStatement symbols span = .ok reordered := by
  obtain ⟨span, body, terminator, hspan, hreordered, -⟩ := h.converted s hs
  exact ⟨span, _, hspan, hreordered⟩

/-- A converted statement holds its postfix order and padding. -/
theorem Completed.get?_inside (h : Completed symbols t u metrics) (hs : s ∈ starts symbols t)
    (hspan : statementAt? t s = some span) (hreordered : ofStatement symbols span = .ok reordered)
    (hn : n < span.length) : u.get? (s + n) = (filled span reordered)[n]? := by
  obtain ⟨span', body, terminator, hspan', hreordered', hslice, -⟩ := h.converted s hs
  obtain rfl : span = span' := Option.some.inj (hspan.symm.trans hspan')
  obtain rfl : reordered = body ++ [terminator] := Except.ok.inj (hreordered.symm.trans hreordered')
  rw [← hslice, List.getElem?_take_of_lt hn, List.getElem?_drop, Lexeme.Table.get?_eq_getElem?]

theorem isPadding_of_mem (hspan : statementAt? t s = some span)
    (hreordered : ofStatement symbols span = .ok reordered) (hl : l ∈ reordered) :
    l.isPadding = false := by
  obtain ⟨inner, terminator, rest, rfl, ht, hinner, -⟩ := statementAt?_eq_some.mp hspan
  obtain ⟨body, rfl, hbody⟩ := clean_of_ofStatement ht hinner hreordered
  rcases List.mem_append.mp hl with hl | hl
  · exact (hbody l hl).isPadding
  · rw [List.mem_singleton.mp hl, Lexeme.isPadding, isTerminator_iff.mp ht]
    rfl

theorem ne_padding (hl : l.isPadding = false) : l ≠ Lexeme.padding := by
  rintro rfl
  cases hl

theorem getElem?_filled (hl : l ≠ Lexeme.padding) :
    (filled span reordered)[n]? = some l ↔ reordered[n]? = some l := by
  rw [filled, List.getElem?_append]
  split
  · rfl
  · next hn =>
    rw [List.getElem?_eq_none (Nat.le_of_not_lt hn)]
    simp only [reduceCtorEq, iff_false]
    intro h
    exact hl (List.eq_of_mem_replicate (List.mem_of_getElem? h))

/-- What stands in a converted statement, but for padding, stands in its postfix order. -/
theorem Completed.exists_reordered (h : Completed symbols t u metrics) (hs : s ∈ starts symbols t)
    (hspan : statementAt? t s = some span) (hreordered : ofStatement symbols span = .ok reordered)
    (hi : Inside t s i) (hl : u.get? i = some l) (hp : l ≠ Lexeme.padding) :
    ∃ n, i = s + n ∧ reordered[n]? = some l := by
  obtain ⟨hle, hlt⟩ := (inside_iff hspan).mp hi
  obtain ⟨n, rfl⟩ : ∃ n, i = s + n := ⟨i - s, by omega⟩
  rw [h.get?_inside hs hspan hreordered (by omega), getElem?_filled hp] at hl
  exact ⟨n, rfl, hl⟩

theorem Completed.get?_reordered (h : Completed symbols t u metrics) (hs : s ∈ starts symbols t)
    (hspan : statementAt? t s = some span) (hreordered : ofStatement symbols span = .ok reordered)
    (hl : reordered[n]? = some l) : u.get? (s + n) = some l := by
  have hlt : n < span.length :=
    Nat.lt_of_lt_of_le (List.getElem?_eq_some_iff.mp hl).1 (length_reordered hspan hreordered)
  have hp := ne_padding (isPadding_of_mem hspan hreordered (List.mem_of_getElem? hl))
  rw [h.get?_inside hs hspan hreordered hlt, getElem?_filled hp, hl]

/-- Everything in a postfix order was written in the statement. -/
theorem exists_written (hspan : statementAt? t s = some span)
    (hreordered : ofStatement symbols span = .ok reordered) (hl : l ∈ reordered) :
    ∃ m ∈ span, l = markCall symbols m := by
  obtain ⟨inner, terminator, rest, rfl, ht, hinner, -⟩ := statementAt?_eq_some.mp hspan
  obtain ⟨body, rfl, hperm⟩ := perm_of_ofStatement ht hinner hreordered
  rcases List.mem_append.mp hl with hl | hl
  · obtain ⟨hkept, -⟩ := List.mem_filter.mp (hperm.mem_iff.mp hl)
    obtain ⟨m, hm, rfl⟩ := List.mem_map.mp hkept
    exact ⟨m, List.mem_append_left _ hm, rfl⟩
  · obtain rfl := List.mem_singleton.mp hl
    refine ⟨l, by simp, (markCall_of_ne ?_).symm⟩
    simp [isTerminator_iff.mp ht]

theorem Completed.origin (h : Completed symbols t u metrics) (hl : u.get? i = some l)
    (hp : l ≠ Lexeme.padding) : ∃ j m, t.get? j = some m ∧ m.line = l.line ∧
      m.symbol = l.symbol ∧ Origin symbols t i j := by
  by_cases hinside : ∃ s ∈ starts symbols t, Inside t s i
  · obtain ⟨s, hs, hi⟩ := hinside
    obtain ⟨span, reordered, hspan, hreordered⟩ := h.statement hs
    obtain ⟨n, rfl, hn⟩ := h.exists_reordered hs hspan hreordered hi hl hp
    obtain ⟨m, hm, rfl⟩ := exists_written hspan hreordered (List.mem_of_getElem? hn)
    obtain ⟨k, hk, hkm⟩ := List.getElem_of_mem hm
    refine ⟨s + k, m, ?_, markCall_line.symm, markCall_symbol.symm,
      .inside hs hi ((inside_iff hspan).mpr ⟨by omega, by omega⟩)⟩
    rw [get?_of_statementAt? hspan hk, List.getElem?_eq_getElem hk, hkm]
  · have hout : ∀ s ∈ starts symbols t, ¬ Inside t s i := fun s hs hi => hinside ⟨s, hs, hi⟩
    exact ⟨i, l, (h.outside i hout).symm.trans hl, rfl, rfl, .outside hout rfl⟩

theorem Completed.apart_of_ne (h : Completed symbols t u metrics) (hr : r ∈ starts symbols t)
    (hs : s ∈ starts symbols t) (hne : r ≠ s) : Apart t r s := by
  have : Std.Symm (Apart t) := ⟨fun _ _ h => h.symm⟩
  exact h.apart.forall hr hs hne

/-- Only within one statement lexemes change their order. -/
theorem Completed.lt_or_inside (h : Completed symbols t u metrics) (hi : Origin symbols t i j)
    (hi' : Origin symbols t i' j') (hlt : i < i') :
    j < j' ∨ ∃ s ∈ starts symbols t, Inside t s i ∧ Inside t s i' := by
  cases hi with
  | outside hi hj =>
    subst hj
    cases hi' with
    | outside hi' hj' =>
      subst hj'
      exact Or.inl hlt
    | @inside s hs hi' hj' =>
      obtain ⟨e, he, -, hend⟩ := hi'
      obtain ⟨e', he', hstart, -⟩ := hj'
      have hbefore : j < s := by
        by_contra hge
        exact hi s hs ⟨e, he, by omega, by omega⟩
      exact Or.inl (by omega)
  | @inside s hs hi hj =>
    obtain ⟨e, he, hsi, hie⟩ := hi
    obtain ⟨e₁, he₁, hsj, hje⟩ := hj
    obtain rfl : e = e₁ := Option.some.inj (he.symm.trans he₁)
    cases hi' with
    | outside hi' hj' =>
      subst hj'
      have hbehind : e < j' := by
        by_contra hge
        exact hi' s hs ⟨e, he, by omega, by omega⟩
      exact Or.inl (by omega)
    | @inside s' hs' hi' hj' =>
      obtain ⟨e', he', hsi', hie'⟩ := hi'
      obtain ⟨e₂, he₂, hsj', hje'⟩ := hj'
      by_cases hsame : s = s'
      · subst hsame
        exact Or.inr ⟨s, hs, ⟨e, he, hsi, hie⟩, ⟨e', he', hsi', hie'⟩⟩
      · rcases h.apart_of_ne hs hs' hsame e e' he he' with hapart | hapart
        · exact Or.inl (by omega)
        · omega

/-- What is converted keeps the order of lines just when each statement does. -/
theorem Completed.inOrder_iff (h : Completed symbols t u metrics) (ht : InOrder t.toList) :
    InOrder u.contents ↔ StatementsInOrder symbols t := by
  rw [Lexeme.Table.inOrder_contents]
  constructor
  · intro hu s hs span reordered hspan hreordered
    refine List.pairwise_iff_getElem.mpr fun i j hi hj hlt => ?_
    exact hu _ _ _ _ (Nat.add_lt_add_left hlt s)
      (h.get?_reordered hs hspan hreordered (List.getElem?_eq_getElem hi))
      (h.get?_reordered hs hspan hreordered (List.getElem?_eq_getElem hj))
      (isPadding_of_mem hspan hreordered (List.getElem_mem hi))
      (isPadding_of_mem hspan hreordered (List.getElem_mem hj))
  · intro hstatements i i' l l' hlt hl hl' hp hp'
    replace hp := ne_padding hp
    replace hp' := ne_padding hp'
    obtain ⟨j, m, hm, hline, -, hi⟩ := h.origin hl hp
    obtain ⟨j', m', hm', hline', -, hi'⟩ := h.origin hl' hp'
    rcases h.lt_or_inside hi hi' hlt with hlt' | ⟨s, hs, hsi, hsi'⟩
    · rw [← hline, ← hline']
      rw [Lexeme.Table.get?_eq_getElem?, List.getElem?_eq_some_iff] at hm hm'
      obtain ⟨hj, rfl⟩ := hm
      obtain ⟨hj', rfl⟩ := hm'
      exact List.pairwise_iff_getElem.mp ht j j' hj hj' hlt'
    · obtain ⟨span, reordered, hspan, hreordered⟩ := h.statement hs
      obtain ⟨n, rfl, hn⟩ := h.exists_reordered hs hspan hreordered hsi hl hp
      obtain ⟨n', rfl, hn'⟩ := h.exists_reordered hs hspan hreordered hsi' hl' hp'
      obtain ⟨hlength, rfl⟩ := List.getElem?_eq_some_iff.mp hn
      obtain ⟨hlength', rfl⟩ := List.getElem?_eq_some_iff.mp hn'
      exact List.pairwise_iff_getElem.mp (hstatements s hs span reordered hspan hreordered) n n'
        hlength hlength' (by omega)

end Postfix

namespace Compile

variable {limits : Limits} {settings : Settings} {source : List UInt8} {compiled : Compiled}

/-- What is compiled is a scanned program with each of its statements in postfix order. -/
theorem completed_of_source (h : (Compile.source limits settings source).2 = .ok compiled) :
    ∃ tokens program notes metrics conversion, Source.tokenize limits source = .ok tokens ∧
      Program.scan settings.scan limits.maxScopeDepth tokens.tokens
        (.empty limits.maxSymbols limits.maxLexemes) = ⟨program, notes, .ok metrics⟩ ∧
      compiled.program.symbols = program.symbols ∧
      Postfix.Completed program.symbols program.lexemes compiled.program.lexemes conversion := by
  obtain ⟨tokens, program, notes, metrics, conversion, htokens, hscan, hconvert, hcompiled⟩ :=
    stages_of_source h
  have hcompleted := Postfix.completed_of_ok
    (Postfix.unconverted_of_linked (Program.linked_of_scan hscan)) hconvert
  refine ⟨tokens, program, notes, metrics, conversion, htokens, hscan, ?_⟩
  rw [hcompiled]
  exact ⟨rfl, hcompleted⟩

end Compile
end Ttm
