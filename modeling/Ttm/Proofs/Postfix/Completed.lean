import Mathlib
import Ttm.Proofs.Postfix.Turn
import Ttm.Proofs.Program.History

/-! What a pass over a scanned program converts, and what it leaves alone. -/
namespace Ttm

namespace Lexeme.Table

variable {t : Lexeme.Table} {start : Nat} {ls : List Lexeme}

theorem take_drop_fill_self (h : start ≤ t.size) :
    ((t.fill start ls).toList.drop start).take ls.length = ls := by
  have hstart : (t.toList.take start).length = start := by
    rw [List.length_take, length_toList, Nat.min_eq_left h]
  rw [toList_fill, List.append_assoc, List.drop_left' hstart, List.take_left]

/-- Lexemes that are filled in count, and those that stood there count no more. -/
theorem countKind_fill {k : Kind} : (t.fill start ls).countKind k +
    (((t.toList.drop start).take ls.length).map (·.kind)).count k =
      t.countKind k + (ls.map (·.kind)).count k := by
  have hsplit : t.toList = t.toList.take start ++ (t.toList.drop start).take ls.length ++
      t.toList.drop (start + ls.length) := by
    rw [List.append_assoc, ← List.drop_drop, List.take_append_drop, List.take_append_drop]
  have hcount := congrArg (fun ls => (ls.map (·.kind)).count k) hsplit
  rw [countKind_eq, countKind_eq, kinds, kinds, toList_fill]
  simp only [List.map_append, List.count_append] at hcount ⊢
  omega

end Lexeme.Table

namespace Postfix

open Lexeme (Kind)

/-- An expression that is a statement stands behind one of these. -/
def leads : Kind → Bool
  | .assign | .retWord | .echoWord => true
  | _ => false

def kindBefore (t : Lexeme.Table) : Nat → Option Kind
  | 0 => none
  | i + 1 => (t.get? i).map (·.kind)

section
variable (symbols : Symbol.Table) (t : Lexeme.Table)

/-- A statement to be converted starts at `i`. -/
def isStart (i : Nat) : Bool :=
  (kindBefore t i).any leads ||
    (endsStatement (kindBefore t i) && (t.get? i).any (isCallee symbols))

def startsBelow (n : Nat) : List Nat := (List.range n).filter (isStart symbols t)

def starts : List Nat := startsBelow symbols t (t.size + 1)

end

/-- The place `i` belongs to the statement from `s` on. -/
def Inside (t : Lexeme.Table) (s i : Nat) : Prop := ∃ e, t.terminator? s = some e ∧ s ≤ i ∧ i ≤ e

/-- What a pass makes of a table, statement by statement. -/
structure Completed [Limits] (symbols : Symbol.Table) (before after : Lexeme.Table)
    (metrics : Metrics) : Prop where
  apart : (starts symbols before).Pairwise (Apart before)
  converted : ∀ s ∈ starts symbols before, ∃ span body terminator,
    statementAt? before s = some span ∧ ofStatement symbols span = .ok (body ++ [terminator]) ∧
      (after.toList.drop s).take span.length = filled span (body ++ [terminator]) ∧
      isTerminator terminator ∧ ∀ l ∈ body, Clean symbols l
  outside : ∀ i, (∀ s ∈ starts symbols before, ¬ Inside before s i) → after.get? i = before.get? i
  size : after.size = before.size
  statements : metrics.statements = (starts symbols before).length
  calls : metrics.calls = after.countKind .call
  padding : metrics.padding = after.countKind .padding

/-- A table that no pass has gone over. -/
def Unconverted (t : Lexeme.Table) : Prop :=
  ∀ l ∈ t.toList, l.kind ≠ .call ∧ l.kind ≠ .padding

/-- What holds while a pass goes over `t`: the statements that started before the place are
converted, and no more has changed. -/
structure Reached [Limits] (symbols : Symbol.Table) (t : Lexeme.Table) (p : Place) : Prop where
  index_le : p.index ≤ t.size
  previous : p.previous = kindBefore t p.index
  not_leads : p.previous.any leads = false
  size : p.table.size = t.size
  ahead : ∀ i, p.index ≤ i → p.table.get? i = t.get? i
  converted : ∀ s ∈ startsBelow symbols t p.index, ∃ span reordered,
    statementAt? t s = some span ∧ ofStatement symbols span = .ok reordered ∧
      s + span.length ≤ p.index ∧ (p.table.toList.drop s).take span.length = filled span reordered
  outside : ∀ i, (∀ s ∈ starts symbols t, ¬ Inside t s i) → p.table.get? i = t.get? i
  statements : p.statements.length = (startsBelow symbols t p.index).length
  calls : (Metrics.of p.statements).calls = p.table.countKind .call
  padding : (Metrics.of p.statements).padding = p.table.countKind .padding

section

variable {limits : Limits} {settings : ConversionSettings} {symbols : Symbol.Table}
  {t : Lexeme.Table} {p q : Place} {l : Lexeme} {i n s start : Nat} {span reordered : List Lexeme}

theorem mem_startsBelow : s ∈ startsBelow symbols t n ↔ s < n ∧ isStart symbols t s := by
  rw [startsBelow, List.mem_filter, List.mem_range]

theorem startsBelow_succ (h : isStart symbols t n) :
    startsBelow symbols t (n + 1) = startsBelow symbols t n ++ [n] := by
  rw [startsBelow, List.range_succ, List.filter_append, List.filter_cons_of_pos h]
  rfl

theorem startsBelow_add (h : ∀ i, n ≤ i → i < n + s → isStart symbols t i = false) :
    startsBelow symbols t (n + s) = startsBelow symbols t n := by
  induction s with
  | zero => rfl
  | succ s ih =>
    have hlast : isStart symbols t (n + s) = false := h _ (by omega) (by omega)
    rw [← Nat.add_assoc, startsBelow, List.range_succ, List.filter_append,
      List.filter_cons_of_neg (by simp [hlast]), List.filter_nil, List.append_nil]
    exact ih fun i hle hlt => h i hle (by omega)

/-- Behind a statement stands its semicolon. -/
theorem kindBefore_behind (hs : statementAt? t s = some span) :
    kindBefore t (s + span.length) = some .semicolon := by
  obtain ⟨inner, terminator, rest, hspan, ht, -, -⟩ := statementAt?_eq_some.mp hs
  have hlast : t.get? (s + inner.length) = some terminator := by
    rw [get?_of_statementAt? hs (by simp [hspan]), hspan]
    simp
  rw [hspan, List.length_append, List.length_singleton, ← Nat.add_assoc, kindBefore, hlast,
    Option.map_some, isTerminator_iff.mp ht]

theorem inside_iff (hs : statementAt? t s = some span) :
    Inside t s i ↔ s ≤ i ∧ i < s + span.length := by
  have hlength := (length_of_statementAt? hs).1
  simp only [Inside, terminator?_eq, hs, Option.map_some, Option.some.injEq, exists_eq_left']
  omega

theorem part_inside (hs : statementAt? t s = some span)
    (h : ofStatement symbols span = .ok reordered) (hle : s ≤ i) (hi : i + 1 < s + span.length) :
    ∃ l, t.get? i = some l ∧ isPart l.kind ∧ isTerminator l = false := by
  obtain ⟨inner, terminator, rest, hspan, -, hinner, -⟩ := statementAt?_eq_some.mp hs
  obtain ⟨-, ⟨w, htally, -⟩, -⟩ := ofStatement_eq_ok.mp h
  obtain ⟨j, rfl⟩ : ∃ j, i = s + j := ⟨i - s, by omega⟩
  have hj : j < inner.length := by
    rw [hspan, List.length_append, List.length_singleton] at hi
    omega
  have hmem : inner[j] ∈ inner := List.getElem_mem hj
  refine ⟨inner[j], ?_, ?_, hinner inner[j] hmem⟩
  · rw [get?_of_statementAt? hs (by omega), hspan, List.getElem?_append_left hj,
      List.getElem?_eq_getElem hj]
  · exact isPart_of_tally htally inner[j] (hspan ▸ List.mem_append_left _ hmem)

/-- Within a statement that can be converted no other one starts or ends. -/
theorem quiet_of_isPart (h : isPart l.kind) (ht : isTerminator l = false) :
    leads l.kind = false ∧ endsStatement (some l.kind) = false := by
  cases hk : l.kind <;> simp_all [isPart, isTerminator, leads, endsStatement, Kind.isArithmetic]

theorem isStart_inside (hs : statementAt? t s = some span)
    (h : ofStatement symbols span = .ok reordered) (hlt : s < i) (hi : i < s + span.length) :
    isStart symbols t i = false := by
  obtain ⟨j, rfl⟩ : ∃ j, i = j + 1 := ⟨i - 1, by omega⟩
  obtain ⟨l, hl, hpart, ht⟩ := part_inside hs h (Nat.le_of_lt_succ hlt) hi
  obtain ⟨hleads, hends⟩ := quiet_of_isPart hpart ht
  have hkind : kindBefore t (j + 1) = some l.kind := by rw [kindBefore, hl]; rfl
  simp [isStart, hkind, hleads, hends]

/-- The next statement starts behind this one. -/
theorem startsBelow_behind (hstart : isStart symbols t s) (hs : statementAt? t s = some span)
    (h : ofStatement symbols span = .ok reordered) :
    startsBelow symbols t (s + span.length) = startsBelow symbols t s ++ [s] := by
  have hlength := (length_of_statementAt? hs).1
  calc startsBelow symbols t (s + span.length)
      = startsBelow symbols t (s + 1 + (span.length - 1)) := by congr 1; omega
    _ = startsBelow symbols t (s + 1) := startsBelow_add fun i hi hlt =>
        isStart_inside hs h (by omega) (by omega)
    _ = startsBelow symbols t s ++ [s] := startsBelow_succ hstart

/-- At a lexeme that a pass keeps no statement starts, and none starts behind it. -/
theorem isStart_of_none (hl : t.get? i = some l) (hleads : (kindBefore t i).any leads = false)
    (hs : startAt symbols (kindBefore t i) l = .none) :
    isStart symbols t i = false ∧ leads l.kind = false := by
  rw [isStart, hleads, hl]
  unfold startAt at hs
  split at hs
  · cases hs
  · cases hs
  · cases hs
  · split at hs
    · cases hs
    · next hcallee =>
      refine ⟨by simpa [Bool.and_comm] using hcallee, ?_⟩
      unfold leads
      split <;> simp_all

/-- The start that a pass finds is the next one. -/
theorem isStart_of_from? (hl : t.get? i = some l) (hleads : (kindBefore t i).any leads = false)
    (hs : (startAt symbols (kindBefore t i) l).from? i = some start) :
    isStart symbols t start ∧ startsBelow symbols t start = startsBelow symbols t i := by
  unfold startAt at hs
  have hbehind (hk : leads l.kind) (hstart : i + 1 = start) :
      isStart symbols t start ∧ startsBelow symbols t start = startsBelow symbols t i := by
    subst hstart
    refine ⟨by simp [isStart, kindBefore, hl, hk], startsBelow_add fun j hle hlt => ?_⟩
    obtain rfl : j = i := by omega
    have hcallee : isCallee symbols l = false := by
      cases hk' : l.kind <;> simp_all [isCallee, leads]
    simp [isStart, hleads, hl, hcallee]
  split at hs
  · next hk => exact hbehind (by rw [hk]; rfl) (Option.some.inj hs)
  · next hk => exact hbehind (by rw [hk]; rfl) (Option.some.inj hs)
  · next hk => exact hbehind (by rw [hk]; rfl) (Option.some.inj hs)
  · split at hs
    · next hcallee =>
      cases hs
      exact ⟨by simp_all [isStart], rfl⟩
    · cases hs

theorem Unconverted.count_eq_zero (h : Unconverted t) (hs : statementAt? t s = some span) :
    (span.map (·.kind)).count .call = 0 ∧ (span.map (·.kind)).count .padding = 0 := by
  obtain ⟨inner, terminator, rest, -, -, -, hdrop⟩ := statementAt?_eq_some.mp hs
  have hmem (l : Lexeme) (hl : l ∈ span) : l ∈ t.toList :=
    List.mem_of_mem_drop (hdrop ▸ List.mem_append_left rest hl)
  constructor <;> rw [List.count_eq_zero, List.mem_map] <;> rintro ⟨l, hl, hk⟩
  · exact (h l (hmem l hl)).1 hk
  · exact (h l (hmem l hl)).2 hk

/-- Only the statement itself holds calls, and only what is left of its place is padding. -/
theorem count_filled (hs : statementAt? t s = some span)
    (h : ofStatement symbols span = .ok reordered) :
    ((filled span reordered).map (·.kind)).count .call = reordered.countP (·.kind == .call) ∧
      ((filled span reordered).map (·.kind)).count .padding = span.length - reordered.length := by
  obtain ⟨inner, terminator, rest, rfl, hterminator, hinner, -⟩ := statementAt?_eq_some.mp hs
  obtain ⟨body, rfl, hbody⟩ := clean_of_ofStatement hterminator hinner h
  have hkind := isTerminator_iff.mp hterminator
  have hpadding : (body.map (·.kind)).count .padding = 0 := by
    rw [List.count_eq_zero, List.mem_map]
    rintro ⟨l, hl, hk⟩
    have hclean := (hbody l hl).isPadding
    rw [Lexeme.isPadding, hk] at hclean
    cases hclean
  constructor
  · rw [filled, List.map_append, List.count_append, List.map_replicate, List.count, List.countP_map]
    simp [Lexeme.padding, Function.comp_def]
  · rw [filled, List.map_append, List.count_append, List.map_append, List.count_append, hpadding]
    simp [hkind, Lexeme.padding]

theorem Reached.keep (h : Reached symbols t p) (hl : p.table.get? p.index = some l)
    (hs : startAt symbols p.previous l = .none) :
    Reached symbols t { p with index := p.index + 1, previous := some l.kind } := by
  rw [h.ahead _ (Nat.le_refl _)] at hl
  rw [h.previous] at hs
  obtain ⟨hstart, hleads⟩ := isStart_of_none hl (h.previous ▸ h.not_leads) hs
  have hbelow : startsBelow symbols t (p.index + 1) = startsBelow symbols t p.index :=
    startsBelow_add fun j hle hlt => by rwa [show j = p.index by omega]
  constructor
  · exact Lexeme.Table.get?_lt hl
  · rw [kindBefore, hl]
    rfl
  · exact hleads
  · exact h.size
  · intro i hi
    exact h.ahead i (by simp only at hi; omega)
  · intro s hs
    obtain ⟨span, reordered, hspan, hreordered, hle, hslice⟩ := h.converted s (hbelow ▸ hs)
    exact ⟨span, reordered, hspan, hreordered, Nat.le_succ_of_le hle, hslice⟩
  · exact h.outside
  · rw [hbelow]
    exact h.statements
  · exact h.calls
  · exact h.padding

theorem Reached.toList_drop (h : Reached symbols t p) (hi : p.index ≤ i) :
    p.table.toList.drop i = t.toList.drop i := by
  apply List.ext_getElem?
  intro n
  rw [List.getElem?_drop, List.getElem?_drop, ← Lexeme.Table.get?_eq_getElem?,
    ← Lexeme.Table.get?_eq_getElem?, h.ahead _ (by omega)]

/-- A statement that a pass has not come to stands as it did. -/
theorem Reached.take_drop (h : Reached symbols t p) (hle : p.index ≤ s)
    (hs : statementAt? t s = some span) : (p.table.toList.drop s).take span.length = span := by
  rw [h.toList_drop hle]
  exact take_drop_of_statementAt? hs

theorem Reached.convert {line : Nat} (ht : Unconverted t) (h : Reached symbols t p)
    (hle : p.index ≤ start) (hstart : isStart symbols t start)
    (hbelow : startsBelow symbols t start = startsBelow symbols t p.index)
    (hs : statementAt? t start = some span)
    (hreordered : ofStatement symbols span = .ok reordered) :
    Reached symbols t
      { table := p.table.fill start (filled span reordered), index := start + span.length,
        previous := some .semicolon,
        statements := ⟨line, reordered, span.length - reordered.length⟩ :: p.statements } := by
  have hinside := length_of_statementAt? hs
  have hlength := length_filled (length_reordered hs hreordered)
  have hfill : start + (filled span reordered).length ≤ p.table.size := by
    rw [hlength, h.size]
    exact hinside.2
  have hnext : startsBelow symbols t (start + span.length) =
      startsBelow symbols t p.index ++ [start] := by
    rw [startsBelow_behind hstart hs hreordered, hbelow]
  have hbefore := ht.count_eq_zero hs
  have hcontent := count_filled hs hreordered
  have hcount (k : Kind) := @Lexeme.Table.countKind_fill p.table start (filled span reordered) k
  simp only [hlength, h.take_drop hle hs] at hcount
  constructor
  · exact hinside.2
  · exact (kindBefore_behind hs).symm
  · rfl
  · rw [Lexeme.Table.size_fill hfill, h.size]
  · intro i hi
    rw [Lexeme.Table.get?_fill hfill, if_neg (by simp only at hi; omega), h.ahead i]
    simp only at hi
    omega
  · intro s hmem
    rw [hnext] at hmem
    rcases List.mem_append.mp hmem with hmem | hmem
    · obtain ⟨other, reordered', hother, hreordered', hend, hslice'⟩ := h.converted s hmem
      refine ⟨other, reordered', hother, hreordered', by simp only; omega, ?_⟩
      rw [Lexeme.Table.take_drop_fill hfill (by omega), hslice']
    · obtain rfl := List.mem_singleton.mp hmem
      refine ⟨span, reordered, hs, hreordered, Nat.le_refl _, ?_⟩
      rw [← hlength, Lexeme.Table.take_drop_fill_self (by omega)]
  · intro i hi
    have hmem : start ∈ starts symbols t :=
      mem_startsBelow.mpr ⟨by omega, hstart⟩
    rw [Lexeme.Table.get?_fill hfill, if_neg, h.outside i hi]
    rintro ⟨hfrom, hto⟩
    exact hi start hmem ((inside_iff hs).mpr ⟨hfrom, by omega⟩)
  · rw [hnext, List.length_append, ← h.statements]
    rfl
  · have hcalls := h.calls
    have := hcount .call
    simp only [Metrics.of, List.foldr_cons, Converted.calls] at hcalls ⊢
    omega
  · have hpadding := h.padding
    have := hcount .padding
    simp only [Metrics.of, List.foldr_cons] at hpadding ⊢
    omega

/-- What holds while a pass goes over a table is kept by each of its turns. -/
theorem Reached.turn (ht : Unconverted t) (h : Reached symbols t p) (hturn : Turn symbols p q) :
    Reached symbols t q := by
  cases hturn with
  | @skip l hl hp =>
    rw [h.ahead _ (Nat.le_refl _)] at hl
    have hkind : l.kind = .padding := by simpa [Lexeme.isPadding] using hp
    exact absurd hkind (ht l (Lexeme.Table.mem_toList_of_get? hl)).2
  | keep hl _ hs => exact h.keep hl hs
  | @convert l start _ _ hl _ hs hc =>
    obtain ⟨span, reordered, hspan, hreordered, rfl, rfl⟩ := convertAt_eq_ok.mp hc
    have hle := (le_of_from? hs).1
    rw [h.ahead _ (Nat.le_refl _)] at hl
    rw [h.previous] at hs
    obtain ⟨hstart, hbelow⟩ := isStart_of_from? hl (h.previous ▸ h.not_leads) hs
    rw [statementAt?, h.toList_drop hle] at hspan
    have hinside := length_of_statementAt? hspan
    have hshort := length_reordered hspan hreordered
    have hsize := h.size
    have hcontent : ((p.table.fill start (filled span reordered)).toList.drop start).take
        reordered.length = reordered := by
      have hfilled := @Lexeme.Table.take_drop_fill_self p.table start (filled span reordered)
        (by omega)
      have htake := congrArg (List.take reordered.length) hfilled
      rw [List.take_take, length_filled hshort, Nat.min_eq_left hshort] at htake
      rw [htake, filled, List.take_left]
    simp only [hcontent, Nat.add_assoc, Nat.add_sub_cancel' hshort]
    exact h.convert ht hle hstart hbelow hspan hreordered

theorem reached_first (ht : Unconverted t) : Reached symbols t { table := t } := by
  have hnone {k : Kind} (hk : ∀ l ∈ t.toList, l.kind ≠ k) : 0 = t.countKind k := by
    rw [Lexeme.Table.countKind_eq, eq_comm, List.count_eq_zero, Lexeme.Table.kinds, List.mem_map]
    rintro ⟨l, hl, rfl⟩
    exact hk l hl rfl
  exact {
    index_le := Nat.zero_le _
    previous := rfl
    not_leads := rfl
    size := rfl
    ahead := fun _ _ => rfl
    converted := fun s hs => absurd (mem_startsBelow.mp hs).1 (Nat.not_lt_zero s)
    outside := fun _ _ => rfl
    statements := rfl
    calls := hnone fun l hl => (ht l hl).1
    padding := hnone fun l hl => (ht l hl).2 }

theorem reached_of_run (ht : Unconverted t)
    (hrun : Relation.ReflTransGen (Turn symbols) { table := t } p) : Reached symbols t p := by
  induction hrun with
  | refl => exact reached_first ht
  | tail _ hturn ih => exact ih.turn ht hturn

theorem Metrics.of_reverse (statements : List Converted) :
    Metrics.of statements.reverse = Metrics.of statements := by
  have hsum (f : Converted → Nat) (ss : List Converted) :
      ss.foldr (fun s n => f s + n) 0 = (ss.map f).sum := by
    rw [List.sum_eq_foldr, List.foldr_map]
  simp only [Metrics.of, hsum, List.length_reverse, List.map_reverse, List.sum_reverse]

/-- A pass that has gone over the whole table has converted each statement that started there. -/
theorem Reached.completed (h : Reached symbols t p) (hend : p.table.get? p.index = none) :
    Completed symbols t p.table (Metrics.of p.statements) := by
  have hindex : p.index = t.size := by
    have hle := h.index_le
    rw [h.ahead _ (Nat.le_refl _), Lexeme.Table.get?_eq_getElem?, List.getElem?_eq_none_iff] at hend
    exact Nat.le_antisymm hle hend
  have hlast : isStart symbols t p.index = false := by
    rw [isStart, ← h.previous, h.not_leads, ← h.ahead _ (Nat.le_refl _), hend]
    simp
  have hstarts : starts symbols t = startsBelow symbols t p.index := by
    rw [starts, ← hindex]
    exact startsBelow_add fun i hle hlt => by rwa [show i = p.index by omega]
  constructor
  · rw [hstarts]
    have hsorted : (startsBelow symbols t p.index).Pairwise (· < ·) :=
      List.Pairwise.filter _ List.pairwise_lt_range
    refine hsorted.imp_of_mem fun {r s} hr hs hlt d e hd he => Or.inl ?_
    obtain ⟨span, reordered, hspan, hreordered, -, -⟩ := h.converted r hr
    rw [terminator?_eq, hspan, Option.map_some, Option.some.injEq] at hd
    have hlength := (length_of_statementAt? hspan).1
    by_contra hge
    have hinside : isStart symbols t s = false :=
      isStart_inside hspan hreordered hlt (by omega)
    rw [(mem_startsBelow.mp hs).2] at hinside
    cases hinside
  · intro s hs
    obtain ⟨span, reordered, hspan, hreordered, -, hslice⟩ := h.converted s (hstarts ▸ hs)
    obtain ⟨inner, terminator, rest, hinner, ht, hnone, -⟩ := statementAt?_eq_some.mp hspan
    obtain ⟨body, rfl, hbody⟩ := clean_of_ofStatement ht hnone (hinner ▸ hreordered)
    exact ⟨span, body, terminator, hspan, hreordered, hslice, ht, hbody⟩
  · exact h.outside
  · exact h.size
  · rw [hstarts]
    exact h.statements
  · exact h.calls
  · exact h.padding

theorem completed_of_ok {metrics : Metrics} (ht : Unconverted t)
    (h : (convertAll symbols settings t).result = .ok metrics) :
    Completed symbols t (convertAll symbols settings t).lexemes metrics := by
  obtain ⟨last, r, hrun, hends, htable, hresult⟩ := @convertAll_turns limits settings symbols t
  rw [hresult] at h
  cases hends with
  | refused => cases h
  | finished hend =>
    cases h
    rw [← htable, Metrics.of_reverse]
    exact (reached_of_run ht hrun).completed hend

theorem unconverted_of_linked {p : Program} (h : p.Linked) : Unconverted p.lexemes := by
  intro l hl
  have hwritten := h.crossReferenced.written l hl
  constructor <;> rintro hk <;> simp [Kind.unwritten, hk] at hwritten

/-- A pass that succeeds over a table filled by scans converts each statement in its place, leaves
all else alone, and counts what it did; and a pass over any table ends. -/
theorem convertAll_completed (settings : ConversionSettings)
    (runs : List (ScanSettings × Nat × List Source.Token)) (maxSymbols maxLexemes : Nat)
    {metrics : Metrics}
    (h : (convertAll symbols settings
      (Program.scanAll runs (.empty maxSymbols maxLexemes)).lexemes).result = .ok metrics) :
    Completed symbols (Program.scanAll runs (.empty maxSymbols maxLexemes)).lexemes
      (convertAll symbols settings
        (Program.scanAll runs (.empty maxSymbols maxLexemes)).lexemes).lexemes metrics ∧
    (WellFounded fun q p => Turn symbols p q) ∧
    ∀ t, ∃ last r, Relation.ReflTransGen (Turn symbols) { table := t } last ∧
      Ends symbols last r ∧ last.table = (convertAll symbols settings t).lexemes ∧
      (convertAll symbols settings t).result = r.map fun _ => .of last.statements.reverse := by
  refine ⟨completed_of_ok ?_ h, wellFounded_turn symbols, fun t => convertAll_turns⟩
  exact unconverted_of_linked ((Program.linked_empty maxSymbols maxLexemes).scanAll runs)

end

attribute [local instance] Limits.development

/-- A function, and a program with a call of it by itself and one in an expression. -/
def twoCalls : List Source.Token :=
  Program.oneLine 1 ["fn", "i32", "f", "(", "i32", "a", ")", "\x7b", "ret", "a", ";", "\x7d", "fn",
    "i32", "main", "(", ")", "\x7b", "let", "i32", "x", ";", "f", "(", "x", ")", ";", "x", "=", "f",
    "(", "x", ")", "*", "x", ";", "\x7d"]

theorem completed_twoCalls :
    let p := Program.scanAll [({}, 2, twoCalls)] (.empty 9 37)
    starts p.symbols p.lexemes = [9, 22, 29] ∧
      Completed p.symbols p.lexemes (convertAll p.symbols {} p.lexemes).lexemes
        { statements := 3, calls := 2, padding := 4 } := by
  have hconverted : (starts (Program.scanAll [({}, 2, twoCalls)] (.empty 9 37)).symbols
      (Program.scanAll [({}, 2, twoCalls)] (.empty 9 37)).lexemes,
      (convertAll (Program.scanAll [({}, 2, twoCalls)] (.empty 9 37)).symbols {}
        (Program.scanAll [({}, 2, twoCalls)] (.empty 9 37)).lexemes).result) =
          ([9, 22, 29], .ok { statements := 3, calls := 2, padding := 4 }) := by
    cbv
  obtain ⟨hstarts, hresult⟩ := Prod.mk.inj hconverted
  exact ⟨hstarts, (convertAll_completed {} [({}, 2, twoCalls)] 9 37 hresult).1⟩

end Postfix
end Ttm
