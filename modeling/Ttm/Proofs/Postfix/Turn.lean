import Mathlib.Logic.Relation
import Ttm.Postfix
import Ttm.Proofs.Postfix.InPlace

/-! A pass over a program, turn by turn, in the table that it rewrites. -/
namespace Ttm.Postfix

open Lexeme (Kind)

/-- Where a pass has got, and the statements it has converted, last first. -/
structure Place where
  table : Lexeme.Table
  index : Nat := 0
  previous : Option Kind := none
  statements : List Converted := []

/-- Where the statement starts, seen from the lexeme at `index`. -/
def Start.from? (index : Nat) : Start → Option Nat
  | .none => .none
  | .here => some index
  | .behind => some (index + 1)

inductive Turn [Limits] (symbols : Symbol.Table) (p : Place) : Place → Prop
  | skip {l : Lexeme} (hl : p.table.get? p.index = some l) (hp : l.isPadding) :
    Turn symbols p { p with index := p.index + 1 }
  | keep {l : Lexeme} (hl : p.table.get? p.index = some l) (hp : l.isPadding = false)
    (hs : startAt symbols p.previous l = .none) :
    Turn symbols p { p with index := p.index + 1, previous := some l.kind }
  | convert {l : Lexeme} {start : Nat} {filling : Lexeme.Filling} {table : Lexeme.Table}
    (hl : p.table.get? p.index = some l) (hp : l.isPadding = false)
    (hs : (startAt symbols p.previous l).from? p.index = some start)
    (hc : convertAt symbols start p.table = (.ok filling, table)) :
    Turn symbols p
      { table, index := start + filling.length + filling.padding, previous := some .semicolon
        statements := ⟨l.line, (table.toList.drop start).take filling.length, filling.padding⟩ ::
          p.statements }

/-- A pass stops behind the last lexeme, or at a statement that is refused. -/
inductive Ends [Limits] (symbols : Symbol.Table) (p : Place) : Except Error Unit → Prop
  | finished (h : p.table.get? p.index = none) : Ends symbols p (.ok ())
  | refused {l : Lexeme} {start : Nat} {e : Error} (hl : p.table.get? p.index = some l)
    (hp : l.isPadding = false) (hs : (startAt symbols p.previous l).from? p.index = some start)
    (hc : convertAt symbols start p.table = (.error e, p.table)) : Ends symbols p (.error e)

variable {limits : Limits} {settings : ConversionSettings} {symbols : Symbol.Table}
  {t u : Lexeme.Table} {p q last : Place} {pass : Pass} {l : Lexeme}
  {ls span rest reordered : List Lexeme} {start index n : Nat} {previous : Option Kind}
  {filling : Lexeme.Filling} {r : Except Error Unit} {e : Error}

theorem le_of_from? {s : Start} (h : s.from? index = some start) :
    index ≤ start ∧ start ≤ index + 1 := by
  cases s with
  | none => cases h
  | here =>
    cases h
    omega
  | behind =>
    cases h
    omega

theorem convertAt_eq_ok : convertAt symbols start t = (.ok filling, u) ↔
    ∃ span reordered, statementAt? t start = some span ∧ ofStatement symbols span = .ok reordered ∧
      filling = ⟨reordered.length, span.length - reordered.length⟩ ∧
      u = t.fill start (filled span reordered) := by
  constructor
  · intro h
    cases hs : statementAt? t start with
    | none =>
      rw [convertAt_of_none hs] at h
      cases h
    | some span =>
      cases hreordered : ofStatement symbols span with
      | error reason =>
        rw [convertAt_of_error hs hreordered] at h
        cases h
      | ok reordered =>
        rw [convertAt_of_ok hs hreordered] at h
        cases h
        exact ⟨span, reordered, rfl, hreordered, rfl, rfl⟩
  · rintro ⟨span, reordered, hs, hreordered, rfl, rfl⟩
    exact convertAt_of_ok hs hreordered

/-- A turn brings the pass nearer to the end of the table, which stays where it is. -/
theorem Turn.progress (h : Turn symbols p q) :
    q.table.size = p.table.size ∧ p.index < q.index ∧ q.index ≤ p.table.size := by
  cases h with
  | skip hl _ =>
    have hlt := Lexeme.Table.get?_lt hl
    exact ⟨rfl, by simp, hlt⟩
  | keep hl _ _ =>
    have hlt := Lexeme.Table.get?_lt hl
    exact ⟨rfl, by simp, hlt⟩
  | convert hl _ hs hc =>
    obtain ⟨span, reordered, hspan, hreordered, rfl, rfl⟩ := convertAt_eq_ok.mp hc
    have hstart := le_of_from? hs
    have hinside := length_of_statementAt? hspan
    have hshort := length_reordered hspan hreordered
    have hsize : (p.table.fill _ (filled span reordered)).size = p.table.size :=
      Lexeme.Table.size_fill (by rw [length_filled hshort]; exact hinside.2)
    refine ⟨hsize, ?_, ?_⟩ <;> simp only <;> omega

theorem Turn.capacity (h : Turn symbols p q) : q.table.capacity = p.table.capacity := by
  cases h with
  | skip | keep => rfl
  | convert _ _ _ hc =>
    obtain ⟨span, reordered, -, -, -, rfl⟩ := convertAt_eq_ok.mp hc
    rfl

/-- A pass cannot go on for ever. -/
theorem wellFounded_turn (symbols : Symbol.Table) :
    WellFounded fun q p => Turn symbols p q := by
  refine Subrelation.wf (fun {q p} hturn => ?_) (measure fun p : Place =>
    p.table.size - p.index).wf
  obtain ⟨hsize, hlt, hle⟩ := hturn.progress
  change q.table.size - q.index < p.table.size - p.index
  omega

theorem convertFirst_eq_ok : convertFirst symbols start ls = .ok (reordered, n, rest) ↔
    ∃ span, splitStatement ls = some (span, rest) ∧ ofStatement symbols span = .ok reordered ∧
      n = span.length := by
  unfold convertFirst
  cases splitStatement ls with
  | none => simp
  | some statement =>
    obtain ⟨span, rest'⟩ := statement
    cases hreordered : ofStatement symbols span with
    | error reason => simp [hreordered]
    | ok reordered' =>
      simp only [hreordered, Except.ok.injEq, Prod.mk.injEq, Option.some.injEq]
      constructor
      · rintro ⟨rfl, rfl, rfl⟩
        exact ⟨span, ⟨rfl, rfl⟩, hreordered, rfl⟩
      · rintro ⟨_, ⟨rfl, rfl⟩, hreordered', rfl⟩
        cases hreordered.symm.trans hreordered'
        exact ⟨rfl, rfl, rfl⟩

theorem convertAt_of_convertFirst
    (h : convertFirst symbols start (t.toList.drop start) = .error e) :
    convertAt symbols start t = (.error e, t) := by
  rw [convertAt, h]

/-- A place in the table, and what a pass has behind it and before it there. -/
structure Place.Shows (p : Place) (pass : Pass) (ls : List Lexeme) : Prop where
  table : p.table.toList = pass.done.reverse ++ ls
  index : p.index = pass.done.length
  statements : p.statements = pass.statements

theorem Place.Shows.drop (h : p.Shows pass ls) : p.table.toList.drop p.index = ls := by
  rw [h.table, h.index, ← List.length_reverse, List.drop_left]

theorem Place.Shows.get? (h : p.Shows pass ls) : p.table.get? p.index = ls.head? := by
  rw [Lexeme.Table.get?_eq_getElem?, ← List.head?_drop, h.drop]

theorem Place.Shows.keep (h : p.Shows pass (l :: ls)) (previous : Option Kind) :
    ({ p with index := p.index + 1, previous } : Place).Shows (pass.keep l) ls := by
  refine ⟨?_, ?_, h.statements⟩
  · simp [h.table, Pass.keep]
  · simp [h.index, Pass.keep]

/-- The statement in front of a pass is converted in the table. -/
theorem Place.Shows.convert (h : p.Shows pass ls)
    (hc : convertFirst symbols p.index ls = .ok (reordered, n, rest)) :
    reordered.length ≤ n ∧ ∃ table, convertAt symbols p.index p.table =
        (.ok ⟨reordered.length, n - reordered.length⟩, table) ∧
      ∀ line previous, Place.Shows
        { table, index := p.index + reordered.length + (n - reordered.length), previous,
          statements := ⟨line, (table.toList.drop p.index).take reordered.length,
            n - reordered.length⟩ :: p.statements }
        (pass.convert ⟨line, reordered, n - reordered.length⟩) rest := by
  obtain ⟨span, hsplit, hreordered, rfl⟩ := convertFirst_eq_ok.mp hc
  have hspan : statementAt? p.table p.index = some span := by rw [statementAt?, h.drop, hsplit]; rfl
  have hshort := length_reordered hspan hreordered
  have hfilled := length_filled hshort
  have htable : (p.table.fill p.index (filled span reordered)).toList =
      pass.done.reverse ++ filled span reordered ++ rest := by
    rw [Lexeme.Table.toList_fill, hfilled, ← List.drop_drop, h.drop, h.table, h.index,
      ← List.length_reverse, List.take_left, ← append_of_splitStatement hsplit, List.drop_left]
  refine ⟨hshort, _, convertAt_of_ok hspan hreordered, fun line previous => ⟨?_, ?_, ?_⟩⟩
  · rw [htable]
    simp [Pass.convert, filled, List.reverseAux_eq]
  · simp only [Pass.convert, List.length_append, List.length_replicate, List.reverseAux_eq,
      List.length_reverse, h.index]
    omega
  · have hcontent : ((p.table.fill p.index (filled span reordered)).toList.drop p.index).take
        reordered.length = reordered := by
      rw [htable, h.index, ← @List.length_reverse _ pass.done, List.append_assoc, List.drop_left,
        filled, List.append_assoc, List.take_left]
    simp only [hcontent, Pass.convert, h.statements]

/-- The turns of a pass from `p` on lead to an end and to what `r` tells. -/
def Place.LeadsTo [Limits] (symbols : Symbol.Table) (p : Place)
    (r : Except Error Unit × Pass) : Prop :=
  ∃ last, Relation.ReflTransGen (Turn symbols) p last ∧ Ends symbols last r.1 ∧
    last.table = ⟨r.2.done.reverse.toArray, p.table.capacity⟩ ∧
    last.statements = r.2.statements

variable {outcome : Except Error Unit × Pass}

theorem Place.LeadsTo.head (h : q.LeadsTo symbols outcome) (hturn : Turn symbols p q) :
    p.LeadsTo symbols outcome := by
  obtain ⟨last, hrun, hends, htable, hstatements⟩ := h
  refine ⟨last, .head hturn hrun, hends, ?_, hstatements⟩
  rw [htable, hturn.capacity]

theorem Place.Shows.leadsTo (h : p.Shows pass ls) (hends : Ends symbols p r) :
    p.LeadsTo symbols (r, { pass with done := ls.reverseAux pass.done }) := by
  refine ⟨p, .refl, hends, Lexeme.Table.ext_toList ?_ rfl, h.statements⟩
  rw [h.table]
  simp [Lexeme.Table.toList, List.reverseAux_eq]

/-- A walk over the lexemes in front of a pass takes the turns of the pass, to its end. -/
theorem walk_turns (h : p.Shows pass ls) :
    p.LeadsTo symbols (walk symbols p.index p.previous pass ls) := by
  generalize hindex : p.index = index
  generalize hprevious : p.previous = previous
  fun_induction walk symbols index previous pass ls generalizing p with
  | case1 index previous pass =>
    exact h.leadsTo (.finished (by rw [h.get?]; rfl))
  | case2 index previous pass l rest hp ih =>
    subst hindex hprevious
    exact (ih (h.keep _) rfl rfl).head (.skip h.get? hp)
  | case3 index previous pass l rest hp hs ih =>
    subst hindex hprevious
    exact (ih (h.keep _) rfl rfl).head (.keep h.get? (by simpa using hp) hs)
  | case4 index previous pass l rest hp hs e hc =>
    subst hindex hprevious
    have hrest := (h.keep none).drop
    refine h.leadsTo (.refused h.get? (by simpa using hp) (by rw [hs]; rfl) ?_)
    exact convertAt_of_convertFirst (by rw [hrest]; exact hc)
  | case5 index previous pass l rest hp hs reordered n behind hc _ ih =>
    subst hindex hprevious
    obtain ⟨hn, table, htable, hshows⟩ := (h.keep none).convert hc
    have hturn := Turn.convert h.get? (by simpa using hp) (by rw [hs]; rfl) htable
    refine (ih (hshows l.line (some .semicolon)) ?_ rfl).head hturn
    simp only
    omega
  | case6 index previous pass l rest hp hs e hc =>
    subst hindex hprevious
    refine h.leadsTo (.refused h.get? (by simpa using hp) (by rw [hs]; rfl) ?_)
    exact convertAt_of_convertFirst (by rw [h.drop]; exact hc)
  | case7 index previous pass l rest hp hs reordered n behind hc _ ih =>
    subst hindex hprevious
    obtain ⟨hn, table, htable, hshows⟩ := h.convert hc
    have hturn := Turn.convert h.get? (by simpa using hp) (by rw [hs]; rfl) htable
    refine (ih (hshows l.line (some .semicolon)) ?_ rfl).head hturn
    simp only
    omega

/-- Every pass comes to an end, with the table and the outcome of a conversion. -/
theorem convertAll_turns : ∃ last r, Relation.ReflTransGen (Turn symbols) { table := t } last ∧
    Ends symbols last r ∧ last.table = (convertAll symbols settings t).lexemes ∧
    (convertAll symbols settings t).result = r.map fun _ => .of last.statements.reverse := by
  have hshows : ({ table := t } : Place).Shows { settings } t.toList := ⟨rfl, rfl, rfl⟩
  obtain ⟨last, hrun, hends, htable, hstatements⟩ := @walk_turns limits symbols _ _ _ hshows
  refine ⟨last, _, hrun, hends, htable, ?_⟩
  rw [convertAll, hstatements]

end Ttm.Postfix
