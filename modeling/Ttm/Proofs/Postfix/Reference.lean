import Ttm.Proofs.Postfix.Advance
import Ttm.Proofs.Postfix.Origin
import Ttm.Proofs.Program.Announced

/-!
Where a converted table refers to a symbol first: where it did before, or within the same statement.
-/
namespace Ttm.Postfix

open Lexeme (Kind)
open Ttm.Program (FirstReference)

/-- In its statement, if there is one around it, only operands stand in front of `p`. -/
def BehindOperands (symbols : Symbol.Table) (t : Lexeme.Table) (p : Nat) : Prop :=
  ∀ s ∈ starts symbols t, Inside t s p → ∀ j l, s ≤ j → j < p → t.get? j = some l →
    isOperand symbols l

variable {limits : Limits} {symbols : Symbol.Table} {t u : Lexeme.Table} {metrics : Metrics}
  {l m : Lexeme} {k : Kind} {d i n p q r s : Nat} {span reordered : List Lexeme}

theorem firstReference?_toList : firstReference? t.toList i = some p ↔ FirstReference t i p := by
  simp only [firstReference?_eq_some, FirstReference, Lexeme.Table.get?_eq_getElem?]

theorem eq_of_firstReference (hp : FirstReference t i p) (hq : FirstReference t i q) : p = q := by
  rw [← firstReference?_toList] at hp hq
  exact Option.some.inj (hp.symm.trans hq)

theorem symbol_of_firstReference (hp : FirstReference t i p) (hl : t.get? p = some l) :
    l.symbol = some i := by
  obtain ⟨⟨m, hm, hi⟩, -⟩ := hp
  rwa [Option.some.inj (hl.symm.trans hm)]

theorem mem_of_inside (hspan : statementAt? t s = some span) (hinside : Inside t s p)
    (hl : t.get? p = some l) : l ∈ span := by
  obtain ⟨hle, hlt⟩ := (inside_iff hspan).mp hinside
  obtain ⟨b, rfl⟩ : ∃ b, p = s + b := ⟨p - s, by omega⟩
  rw [get?_of_statementAt? hspan (by omega)] at hl
  exact List.mem_of_getElem? hl

theorem ne_padding_of_symbol (hi : l.symbol = some i) : l ≠ Lexeme.padding := by
  rintro rfl
  cases hi

/-- A place belongs to one statement only. -/
theorem Completed.eq_of_inside (h : Completed symbols t u metrics) (hr : r ∈ starts symbols t)
    (hs : s ∈ starts symbols t) (hri : Inside t r p) (hsi : Inside t s p) : r = s := by
  by_contra hne
  obtain ⟨d, hd, hle, hlt⟩ := hri
  obtain ⟨e, he, hle', hlt'⟩ := hsi
  rcases h.apart_of_ne hr hs hne d e hd he with hapart | hapart <;> omega

/-- Outside of statements the first reference to a symbol stays. -/
theorem Completed.firstReference_outside (h : Completed symbols t u metrics)
    (hp : FirstReference t i p) (hout : ∀ s ∈ starts symbols t, ¬ Inside t s p) :
    FirstReference u i p := by
  obtain ⟨⟨l, hl, hi⟩, hnone⟩ := hp
  refine ⟨⟨l, (h.outside p hout).trans hl, hi⟩, fun r m hr hm hmi => ?_⟩
  obtain ⟨j, m', hm', -, hsymbol, horigin⟩ := h.origin hm (ne_padding_of_symbol hmi)
  rcases h.lt_or_inside horigin (.outside hout rfl) hr with hlt | ⟨s, hs, -, hinside⟩
  · exact hnone j m' hlt hm' (hsymbol.trans hmi)
  · exact hout s hs hinside

/-- Within a statement it gets to where the postfix order has it. -/
theorem Completed.firstReference_inside (h : Completed symbols t u metrics)
    (hp : FirstReference t i p) (hs : s ∈ starts symbols t) (hinside : Inside t s p)
    (hspan : statementAt? t s = some span) (hreordered : ofStatement symbols span = .ok reordered)
    (hn : firstReference? reordered i = some n) :
    FirstReference u i (s + n) ∧ Inside t s (s + n) := by
  obtain ⟨⟨l, hl, hi⟩, hbefore⟩ := firstReference?_eq_some.mp hn
  have hlt : n < span.length :=
    Nat.lt_of_lt_of_le (List.getElem?_eq_some_iff.mp hl).1 (length_reordered hspan hreordered)
  have hmoved : Inside t s (s + n) := (inside_iff hspan).mpr ⟨by omega, by omega⟩
  refine ⟨⟨⟨l, h.get?_reordered hs hspan hreordered hl, hi⟩, fun r m hr hm hmi => ?_⟩, hmoved⟩
  have hp' := ne_padding_of_symbol hmi
  obtain ⟨j, m', hm', -, hsymbol, horigin⟩ := h.origin hm hp'
  rcases h.lt_or_inside horigin (.inside hs hmoved hinside) hr with hlt' | ⟨s', hs', hri, hmi'⟩
  · exact hp.2 j m' hlt' hm' (hsymbol.trans hmi)
  · obtain rfl := h.eq_of_inside hs' hs hmi' hmoved
    obtain ⟨b, rfl, hb⟩ := h.exists_reordered hs hspan hreordered hri hm hp'
    exact hbefore b m (by omega) hb hmi

theorem isDropped_of_referring (hk : m.kind ∈ Kind.referring) :
    isDropped (markCall symbols m) = false := by
  unfold markCall
  split
  · rfl
  · cases hm : m.kind <;> simp_all [isDropped, Kind.referring]

/-- A statement in postfix order refers to the symbols that it referred to. -/
theorem exists_firstReference? (hspan : statementAt? t s = some span)
    (hreordered : ofStatement symbols span = .ok reordered) (hm : m ∈ span)
    (hi : m.symbol = some i) (hk : m.kind ∈ Kind.referring) :
    ∃ n, firstReference? reordered i = some n := by
  obtain ⟨inner, terminator, rest, rfl, ht, hinner, -⟩ := statementAt?_eq_some.mp hspan
  obtain ⟨body, rfl, hperm⟩ := perm_of_ofStatement ht hinner hreordered
  have hmem : markCall symbols m ∈ body := by
    rw [hperm.mem_iff, kept, List.mem_filter]
    rcases List.mem_append.mp hm with hm | hm
    · exact ⟨List.mem_map_of_mem hm, by simp [isDropped_of_referring hk]⟩
    · obtain rfl := List.mem_singleton.mp hm
      simp [isTerminator_iff.mp ht, Kind.referring] at hk
  cases hfirst : firstReference? (body ++ [terminator]) i with
  | some n => exact ⟨n, rfl⟩
  | none =>
    rw [firstReference?, List.findIdx?_eq_none_iff] at hfirst
    have hnot := hfirst _ (List.mem_append_left _ hmem)
    rw [markCall_symbol, hi] at hnot
    simp at hnot

/-- The first reference in a statement gets to where its postfix order has the first one. -/
theorem Completed.firstReference_reordered (h : Completed symbols t u metrics)
    (hp : FirstReference t i p) (hl : t.get? p = some l) (hk : l.kind ∈ Kind.referring)
    (hs : s ∈ starts symbols t) (hinside : Inside t s p) (hspan : statementAt? t s = some span)
    (hreordered : ofStatement symbols span = .ok reordered) :
    ∃ n, firstReference? reordered i = some n ∧ FirstReference u i (s + n) ∧
      Inside t s (s + n) := by
  obtain ⟨n, hn⟩ := exists_firstReference? hspan hreordered (mem_of_inside hspan hinside hl)
    (symbol_of_firstReference hp hl) hk
  exact ⟨n, hn, h.firstReference_inside hp hs hinside hspan hreordered hn⟩

/-- The first reference to a symbol does not leave its statement. -/
theorem Completed.exists_firstReference (h : Completed symbols t u metrics)
    (hp : FirstReference t i p) (hl : t.get? p = some l) (hk : l.kind ∈ Kind.referring) :
    ∃ q, FirstReference u i q ∧
      (q = p ∨ ∃ s ∈ starts symbols t, Inside t s p ∧ Inside t s q) := by
  by_cases hinside : ∃ s ∈ starts symbols t, Inside t s p
  · obtain ⟨s, hs, hinside⟩ := hinside
    obtain ⟨span, reordered, hspan, hreordered⟩ := h.statement hs
    obtain ⟨n, -, hfirst, hmoved⟩ :=
      h.firstReference_reordered hp hl hk hs hinside hspan hreordered
    exact ⟨s + n, hfirst, Or.inr ⟨s, hs, hinside, hmoved⟩⟩
  · have hout : ∀ s ∈ starts symbols t, ¬ Inside t s p := fun s hs hi => hinside ⟨s, hs, hi⟩
    exact ⟨p, h.firstReference_outside hp hout, Or.inl rfl⟩

theorem mem_take_iff (hspan : statementAt? t s = some span) (hn : n < span.length) :
    l ∈ span.take n ↔ ∃ j, s ≤ j ∧ j < s + n ∧ t.get? j = some l := by
  rw [List.mem_take_iff_getElem]
  constructor
  · rintro ⟨b, hb, rfl⟩
    refine ⟨s + b, by omega, by omega, ?_⟩
    rw [get?_of_statementAt? hspan (by omega)]
    exact List.getElem?_eq_getElem (by omega)
  · rintro ⟨j, hle, hlt, hl⟩
    obtain ⟨b, rfl⟩ : ∃ b, j = s + b := ⟨j - s, by omega⟩
    rw [get?_of_statementAt? hspan (by omega)] at hl
    obtain ⟨hb, rfl⟩ := List.getElem?_eq_some_iff.mp hl
    exact ⟨b, by omega, rfl⟩

/-- How far the operand at `n` of a statement gets to the front. -/
theorem firstReference?_of_statement (hspan : statementAt? t s = some span)
    (hreordered : ofStatement symbols span = .ok reordered) (hp : FirstReference t i (s + n))
    (hn : n < span.length) (hl : t.get? (s + n) = some l) (hoperand : isOperand symbols l) :
    ∃ b ≤ n, firstReference? reordered i = some b ∧
      (b = n ↔ ∀ m ∈ span.take n, isOperand symbols m) := by
  have hi := symbol_of_firstReference hp hl
  rw [get?_of_statementAt? hspan hn] at hl
  obtain ⟨hlt, hget⟩ := List.getElem?_eq_some_iff.mp hl
  have hsplit : span = span.take n ++ l :: span.drop (n + 1) := by
    rw [← hget, ← List.drop_eq_getElem_cons, List.take_append_drop]
  have hbefore : ∀ m ∈ span.take n, m.symbol ≠ some i := by
    intro m hm
    obtain ⟨j, -, hlt, hj⟩ := (mem_take_iff hspan hn).mp hm
    exact hp.2 j m hlt hj
  have ht : ∀ m ∈ span.take n, isTerminator m = false := by
    obtain ⟨inner, terminator, rest, rfl, -, hinner, -⟩ := statementAt?_eq_some.mp hspan
    rw [List.length_append, List.length_singleton] at hn
    rw [List.take_append_of_le_length (Nat.le_of_lt_succ hn)]
    exact fun m hm => hinner m (List.mem_of_mem_take hm)
  rw [hsplit] at hreordered
  have hfirst := firstReference?_of_operand ht hoperand hi hbefore hreordered
  rwa [List.length_take_of_le (Nat.le_of_lt hn)] at hfirst

/-- An operand that refers to a symbol first gets to the front, past all but operands. -/
theorem Completed.firstReference_operand (h : Completed symbols t u metrics)
    (hp : FirstReference t i p) (hl : t.get? p = some l) (hoperand : isOperand symbols l) :
    (∃ q ≤ p, FirstReference u i q) ∧ (FirstReference u i p ↔ BehindOperands symbols t p) := by
  by_cases hinside : ∃ s ∈ starts symbols t, Inside t s p
  · obtain ⟨s, hs, hinside⟩ := hinside
    obtain ⟨span, reordered, hspan, hreordered⟩ := h.statement hs
    obtain ⟨hle, hlt⟩ := (inside_iff hspan).mp hinside
    obtain ⟨b, rfl⟩ : ∃ b, p = s + b := ⟨p - s, by omega⟩
    obtain ⟨n, hn, hfirst, heq⟩ :=
      firstReference?_of_statement hspan hreordered hp (by omega) hl hoperand
    obtain ⟨hmoved, -⟩ := h.firstReference_inside hp hs hinside hspan hreordered hfirst
    refine ⟨⟨s + n, by omega, hmoved⟩, ?_⟩
    have hstays : FirstReference u i (s + b) ↔ n = b :=
      ⟨fun hb => Nat.add_left_cancel (eq_of_firstReference hmoved hb), fun hb => hb ▸ hmoved⟩
    rw [hstays, heq]
    constructor
    · intro hall s' hs' hinside' j m hle' hlt' hm
      obtain rfl := h.eq_of_inside hs' hs hinside' hinside
      exact hall m ((mem_take_iff hspan (by omega)).mpr ⟨j, hle', hlt', hm⟩)
    · intro hall m hm
      obtain ⟨j, hle', hlt', hm⟩ := (mem_take_iff hspan (by omega)).mp hm
      exact hall s hs hinside j m hle' hlt' hm
  · have hout : ∀ s ∈ starts symbols t, ¬ Inside t s p := fun s hs hi => hinside ⟨s, hs, hi⟩
    have hstays := h.firstReference_outside hp hout
    exact ⟨⟨p, Nat.le_refl p, hstays⟩,
      iff_of_true hstays fun s hs hi => absurd hi (hout s hs)⟩

/-- No statement goes on over what announces a name, or starts right behind it. -/
theorem Completed.le_start (h : Completed symbols t u metrics) (hs : s ∈ starts symbols t)
    (hinside : Inside t s p) (hd : t.kinds[d]? = some k) (hlt : d < p) (hpart : isPart k = false)
    (hleads : leads k = false) (hends : endsStatement (some k) = false) : d + 2 ≤ s := by
  obtain ⟨span, reordered, hspan, hreordered⟩ := h.statement hs
  have hend := ((inside_iff hspan).mp hinside).2
  rw [Lexeme.Table.getElem?_kinds, Option.map_eq_some_iff] at hd
  obtain ⟨l, hl, rfl⟩ := hd
  by_contra hge
  rcases Nat.lt_or_ge d s with hds | hsd
  · obtain rfl : s = d + 1 := by omega
    have hstart := (mem_startsBelow.mp hs).2
    simp [isStart, kindBefore, hl, hleads, hends] at hstart
  · obtain ⟨m, hm, hmPart, -⟩ := part_inside hspan hreordered hsd (by omega)
    obtain rfl := Option.some.inj (hl.symm.trans hm)
    rw [hpart] at hmPart
    cases hmPart

/-- A name that is declared within a statement is the first lexeme of it. -/
theorem Completed.start_of_announced {kind : SymbolKind} {back : Nat}
    (h : Completed symbols t u metrics) (hs : s ∈ starts symbols t)
    (hinside : Inside t s (d + back)) (hd : t.kinds[d]? = some k)
    (ha : kind.announcement? = some (back, k)) : s = d + back := by
  have hle : s ≤ d + back := by
    obtain ⟨e, -, hle, -⟩ := hinside
    exact hle
  have hstart : d + 2 ≤ s := by
    cases kind <;> cases ha <;>
      exact h.le_start hs hinside hd (by omega) (by decide) (by decide) (by decide)
  cases kind <;> cases ha <;> omega

theorem firstReference?_eq_zero {ls : List Lexeme} :
    firstReference? ls i = some 0 ↔ ls.head?.bind (·.symbol) = some i := by
  rw [firstReference?_eq_some, List.head?_eq_getElem?, Option.bind_eq_some_iff]
  simp

/-- The first reference at the start of a statement stays if the postfix order begins with one. -/
theorem Completed.firstReference_start (h : Completed symbols t u metrics)
    (hp : FirstReference t i p) (hl : t.get? p = some l) (hk : l.kind ∈ Kind.referring)
    (hstart : ∀ s ∈ starts symbols t, Inside t s p → s = p) :
    FirstReference u i p ↔ ∀ span reordered, p ∈ starts symbols t →
      statementAt? t p = some span → ofStatement symbols span = .ok reordered →
        reordered.head?.bind (·.symbol) = some i := by
  by_cases hs : p ∈ starts symbols t
  · obtain ⟨span, reordered, hspan, hreordered⟩ := h.statement hs
    have hlength := (length_of_statementAt? hspan).1
    have hinside : Inside t p p := (inside_iff hspan).mpr ⟨Nat.le_refl p, by omega⟩
    obtain ⟨n, hn, hmoved, -⟩ :=
      h.firstReference_reordered hp hl hk hs hinside hspan hreordered
    constructor
    · intro hstays span' reordered' _ hspan' hreordered'
      obtain rfl := Option.some.inj (hspan.symm.trans hspan')
      obtain rfl := Except.ok.inj (hreordered.symm.trans hreordered')
      obtain rfl : 0 = n := Nat.add_left_cancel (eq_of_firstReference hstays hmoved)
      exact firstReference?_eq_zero.mp hn
    · intro hhead
      have hzero := firstReference?_eq_zero.mpr (hhead span reordered hs hspan hreordered)
      exact (h.firstReference_inside hp hs hinside hspan hreordered hzero).1
  · have hout : ∀ s ∈ starts symbols t, ¬ Inside t s p := fun s hs' hinside =>
      hs (hstart s hs' hinside ▸ hs')
    exact iff_of_true (h.firstReference_outside hp hout) fun _ _ hs' => absurd hs' hs

end Ttm.Postfix
