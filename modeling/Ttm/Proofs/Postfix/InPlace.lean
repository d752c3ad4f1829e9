import Ttm.Proofs.Lexeme.Table
import Ttm.Proofs.Postfix.Content

/-! Statements that are put into postfix order where they stand, one after another. -/
namespace Ttm

/-- Puts lexemes in the place of those from `start` on. -/
def Lexeme.Table.fill (t : Lexeme.Table) (start : Nat) (lexemes : List Lexeme) : Lexeme.Table :=
  { t with entries :=
      (t.toList.take start ++ lexemes ++ t.toList.drop (start + lexemes.length)).toArray }

namespace Lexeme.Table

variable {t u : Lexeme.Table} {start i : Nat} {lexemes ls : List Lexeme}

theorem ext_toList (hlist : t.toList = u.toList) (hcapacity : t.capacity = u.capacity) :
    t = u := by
  cases t
  cases u
  simp only [mk.injEq]
  exact ⟨Array.ext' hlist, hcapacity⟩

theorem toList_fill : (t.fill start lexemes).toList =
    t.toList.take start ++ lexemes ++ t.toList.drop (start + lexemes.length) := rfl

theorem size_fill (h : start + lexemes.length ≤ t.size) : (t.fill start lexemes).size = t.size := by
  have hlength := @length_toList t
  rw [← length_toList, toList_fill, List.length_append, List.length_append, List.length_take,
    List.length_drop]
  omega

theorem get?_fill (h : start + lexemes.length ≤ t.size) : (t.fill start lexemes).get? i =
    if start ≤ i ∧ i < start + lexemes.length then lexemes[i - start]? else t.get? i := by
  have hlength := @length_toList t
  rw [get?_eq_getElem?, get?_eq_getElem?, toList_fill, List.append_assoc, List.getElem?_append,
    List.getElem?_append, List.getElem?_take, List.getElem?_drop, List.length_take,
    Nat.min_eq_left (by omega)]
  split
  · next hi => rw [if_neg (by omega)]
  · next hi =>
    split
    · next hinside => rw [if_pos (by omega)]
    · next hbehind =>
      rw [if_neg (by omega)]
      congr 1
      omega

theorem drop_fill_behind (h : start + lexemes.length ≤ t.size) (hi : start + lexemes.length ≤ i) :
    (t.fill start lexemes).toList.drop i = t.toList.drop i := by
  apply List.ext_getElem?
  intro n
  rw [List.getElem?_drop, List.getElem?_drop, ← get?_eq_getElem?, ← get?_eq_getElem?,
    get?_fill h, if_neg (by omega)]

theorem take_drop_fill {n : Nat} (h : start + lexemes.length ≤ t.size) (hi : i + n ≤ start) :
    ((t.fill start lexemes).toList.drop i).take n = (t.toList.drop i).take n := by
  apply List.ext_getElem?
  intro k
  rw [List.getElem?_take, List.getElem?_take]
  split
  · rw [List.getElem?_drop, List.getElem?_drop, ← get?_eq_getElem?, ← get?_eq_getElem?,
      get?_fill h, if_neg (by omega)]
  · rfl

theorem fill_comm {other : Nat} (hl : start + lexemes.length ≤ t.size)
    (hs : other + ls.length ≤ t.size) (happart : start + lexemes.length ≤ other) :
    (t.fill start lexemes).fill other ls = (t.fill other ls).fill start lexemes := by
  refine ext_toList (List.ext_getElem? fun n => ?_) rfl
  rw [← get?_eq_getElem?, ← get?_eq_getElem?, get?_fill (by rw [size_fill hl]; exact hs),
    get?_fill hl, get?_fill (by rw [size_fill hs]; exact hl), get?_fill hs]
  split <;> split <;> first | rfl | omega

end Lexeme.Table

namespace Postfix

open Lexeme (Kind)

/-- The lexemes from `start` through the next semicolon. -/
def statementAt? (t : Lexeme.Table) (start : Nat) : Option (List Lexeme) :=
  (splitStatement (t.toList.drop start)).map Prod.fst

/-- A statement in postfix order, with padding up to its length. -/
def filled (span reordered : List Lexeme) : List Lexeme :=
  reordered ++ List.replicate (span.length - reordered.length) Lexeme.padding

section

variable {limits : Limits} {symbols : Symbol.Table} {t : Lexeme.Table} {start r s e : Nat}
  {span rest reordered lexemes : List Lexeme}

theorem statementAt?_eq_some : statementAt? t start = some span ↔
    ∃ inner terminator rest, span = inner ++ [terminator] ∧ isTerminator terminator ∧
      (∀ l ∈ inner, isTerminator l = false) ∧ t.toList.drop start = span ++ rest := by
  simp only [statementAt?, Option.map_eq_some_iff, Prod.exists, splitStatement_eq_some]
  constructor
  · rintro ⟨_, rest, ⟨inner, terminator, hspan, ht, hinner, hdrop⟩, rfl⟩
    exact ⟨inner, terminator, rest, hspan, ht, hinner, hdrop⟩
  · rintro ⟨inner, terminator, rest, hspan, ht, hinner, hdrop⟩
    exact ⟨span, rest, ⟨inner, terminator, hspan, ht, hinner, hdrop⟩, rfl⟩

/-- Where no statement is, no semicolon follows. -/
theorem not_isTerminator_of_none (h : statementAt? t start = none) :
    ∀ l ∈ t.toList.drop start, isTerminator l = false := by
  simp only [statementAt?, Option.map_eq_none_iff, splitStatement] at h
  split at h
  · next hdrop =>
    intro l hl
    have hall := List.dropWhile_eq_nil_iff.mp hdrop l hl
    simpa using hall
  · cases h

theorem length_of_statementAt? (h : statementAt? t start = some span) :
    0 < span.length ∧ start + span.length ≤ t.size := by
  obtain ⟨inner, terminator, rest, rfl, -, -, hdrop⟩ := statementAt?_eq_some.mp h
  have hlength := congrArg List.length hdrop
  rw [List.length_drop, Lexeme.Table.length_toList, List.length_append] at hlength
  rw [List.length_append, List.length_singleton] at hlength ⊢
  omega

theorem take_drop_of_statementAt? (hs : statementAt? t start = some span) :
    (t.toList.drop start).take span.length = span := by
  obtain ⟨inner, terminator, rest, -, -, -, hdrop⟩ := statementAt?_eq_some.mp hs
  rw [hdrop, List.take_left]

theorem get?_of_statementAt? (hs : statementAt? t s = some span) {i : Nat} (hi : i < span.length) :
    t.get? (s + i) = span[i]? := by
  obtain ⟨inner, terminator, rest, -, -, -, hdrop⟩ := statementAt?_eq_some.mp hs
  rw [Lexeme.Table.get?_eq_getElem?, ← List.getElem?_drop, hdrop, List.getElem?_append_left hi]

theorem length_filled (h : reordered.length ≤ span.length) :
    (filled span reordered).length = span.length := by
  rw [filled, List.length_append, List.length_replicate]
  omega

theorem length_reordered (hs : statementAt? t start = some span)
    (h : ofStatement symbols span = .ok reordered) : reordered.length ≤ span.length := by
  obtain ⟨⟨_, rest⟩, hsplit, rfl⟩ := Option.map_eq_some_iff.mp hs
  exact length_of_ofStatement hsplit h

theorem convertAt_of_none (hs : statementAt? t start = none) : convertAt symbols start t =
    (.error (.missingTerminator start ((t.toList.drop start).head?.map (·.line))), t) := by
  have hsplit : splitStatement (t.toList.drop start) = none := Option.map_eq_none_iff.mp hs
  rw [convertAt, convertFirst, hsplit]

theorem convertAt_of_error {reason : String} (hs : statementAt? t start = some span)
    (h : ofStatement symbols span = .error reason) : convertAt symbols start t =
    (.error (.malformedExpression start (span.head?.elim 0 (·.line)) reason), t) := by
  obtain ⟨⟨_, rest⟩, hsplit, rfl⟩ := Option.map_eq_some_iff.mp hs
  simp only at h ⊢
  rw [convertAt, convertFirst, hsplit]
  simp only [h]

theorem convertAt_of_ok (hs : statementAt? t start = some span)
    (h : ofStatement symbols span = .ok reordered) : convertAt symbols start t =
    (.ok ⟨reordered.length, span.length - reordered.length⟩,
      t.fill start (filled span reordered)) := by
  have hinside := (length_of_statementAt? hs).2
  have hshort := length_reordered hs h
  have hfilled := length_filled hshort
  obtain ⟨⟨_, rest⟩, hsplit, rfl⟩ := Option.map_eq_some_iff.mp hs
  simp only at h hinside hshort hfilled ⊢
  rw [convertAt, convertFirst, hsplit]
  simp only [h]
  rw [Lexeme.Table.overwrite, if_neg (Nat.not_lt.mpr hinside), if_neg (Nat.not_lt.mpr hshort),
    Lexeme.Table.fill, hfilled, filled, ← List.append_assoc]
  rfl

theorem terminator?_eq :
    t.terminator? start = (statementAt? t start).map fun span => start + (span.length - 1) := by
  rw [Lexeme.Table.terminator?]
  cases hs : statementAt? t start with
  | none =>
    have hnone : (t.toList.drop start).findIdx? (·.kind == .semicolon) = none := by
      rw [List.findIdx?_eq_none_iff]
      intro l hl
      exact not_isTerminator_of_none hs l hl
    rw [hnone]
    rfl
  | some span =>
    obtain ⟨inner, terminator, rest, rfl, ht, hinner, hdrop⟩ := statementAt?_eq_some.mp hs
    have hnone : inner.findIdx? (·.kind == .semicolon) = none :=
      List.findIdx?_eq_none_iff.mpr hinner
    have hfirst : (t.toList.drop start).findIdx? (·.kind == .semicolon) = some inner.length := by
      rw [hdrop, List.append_assoc, List.findIdx?_append, hnone]
      have hhead : (terminator.kind == .semicolon) = true := ht
      simp [List.findIdx?_cons, hhead]
    rw [hfirst]
    simp

/-- The statements from `r` and from `s` on have no lexeme in common. -/
def Apart (t : Lexeme.Table) (r s : Nat) : Prop :=
  ∀ d e, t.terminator? r = some d → t.terminator? s = some e → d < s ∨ e < r

instance : Decidable (Apart t r s) :=
  decidable_of_iff (∀ d ∈ t.terminator? r, ∀ e ∈ t.terminator? s, d < s ∨ e < r)
    ⟨fun h d e hd he => h d hd e he, fun h d hd e he => h d e hd he⟩

theorem Apart.symm (h : Apart t r s) : Apart t s r := fun d e hd he => (h e d he hd).symm

theorem Apart.length_le {other : List Lexeme} (h : Apart t r s)
    (hr : statementAt? t r = some span) (hs : statementAt? t s = some other) :
    r + span.length ≤ s ∨ s + other.length ≤ r := by
  have hspan := length_of_statementAt? hr
  have hother := length_of_statementAt? hs
  have hends := h (r + (span.length - 1)) (s + (other.length - 1)) (by rw [terminator?_eq, hr]; rfl)
    (by rw [terminator?_eq, hs]; rfl)
  omega

/-- Where no statement is, the statements elsewhere have ended. -/
theorem length_le_of_none (hr : statementAt? t r = none) (hs : statementAt? t s = some span) :
    s + span.length ≤ r := by
  by_contra hlt
  obtain ⟨inner, terminator, rest, rfl, ht, -, hdrop⟩ := statementAt?_eq_some.mp hs
  rw [List.length_append, List.length_singleton] at hlt
  have hend : (t.toList.drop s)[inner.length]? = some terminator := by
    rw [hdrop, List.append_assoc, List.getElem?_append_right (Nat.le_refl _)]
    simp
  have hmem : terminator ∈ t.toList.drop r := by
    apply List.mem_of_getElem? (i := s + inner.length - r)
    rw [List.getElem?_drop] at hend ⊢
    rw [← hend]
    congr 1
    omega
  rw [not_isTerminator_of_none hr terminator hmem] at ht
  cases ht

/-- Filling one statement leaves those apart from it as they are, and what stands behind `r` if no
statement is there. -/
theorem statementAt?_fill (h : Apart t r s) (hs : statementAt? t s = some span)
    (hlength : lexemes.length = span.length) :
    statementAt? (t.fill s lexemes) r = statementAt? t r ∧
      (statementAt? t r = none → (t.fill s lexemes).toList.drop r = t.toList.drop r) := by
  have hinside := (length_of_statementAt? hs).2
  rw [← hlength] at hinside
  have hbehind (hle : s + span.length ≤ r) :
      (t.fill s lexemes).toList.drop r = t.toList.drop r := by
    rw [← hlength] at hle
    exact Lexeme.Table.drop_fill_behind hinside hle
  cases hr : statementAt? t r with
  | none =>
    have hdrop := hbehind (length_le_of_none hr hs)
    exact ⟨by rw [statementAt?, hdrop]; exact hr, fun _ => hdrop⟩
  | some other =>
    refine ⟨?_, fun hnone => by cases hnone⟩
    rcases h.length_le hr hs with hle | hle
    · obtain ⟨inner, terminator, rest, hother, ht, hinner, hdrop⟩ := statementAt?_eq_some.mp hr
      have htake : ((t.fill s lexemes).toList.drop r).take other.length = other := by
        rw [Lexeme.Table.take_drop_fill hinside hle, hdrop, List.take_left]
      rw [statementAt?_eq_some]
      refine ⟨inner, terminator, ((t.fill s lexemes).toList.drop r).drop other.length, hother, ht,
        hinner, ?_⟩
      calc (t.fill s lexemes).toList.drop r
          = ((t.fill s lexemes).toList.drop r).take other.length ++
              ((t.fill s lexemes).toList.drop r).drop other.length :=
            (List.take_append_drop _ _).symm
        _ = other ++ ((t.fill s lexemes).toList.drop r).drop other.length := by rw [htake]
    · rw [statementAt?, hbehind hle]
      exact hr

variable (symbols)

/-- How converting the statement at `start` ends. -/
def outcome [Limits] (t : Lexeme.Table) (start : Nat) : Except Error Lexeme.Filling :=
  (convertAt symbols start t).1

/-- The table behind it. -/
def after [Limits] (t : Lexeme.Table) (start : Nat) : Lexeme.Table := (convertAt symbols start t).2

/-- Converts statements one after another, and tells how each of them ended. -/
def convertEach [Limits] :
    List Nat → Lexeme.Table → List (Nat × Except Error Lexeme.Filling) × Lexeme.Table
  | [], t => ([], t)
  | start :: rest, t =>
    let (result, t) := convertAt symbols start t
    let (outcomes, done) := convertEach rest t
    ((start, result) :: outcomes, done)

variable {symbols}

/-- There is a statement at `start` that can be put into postfix order. -/
def Fills [Limits] (symbols : Symbol.Table) (t : Lexeme.Table) (start : Nat) : Prop :=
  ∃ span reordered, statementAt? t start = some span ∧ ofStatement symbols span = .ok reordered

theorem convertEach_cons {rest : List Nat} : convertEach symbols (r :: rest) t =
    ((r, outcome symbols t r) :: (convertEach symbols rest (after symbols t r)).1,
      (convertEach symbols rest (after symbols t r)).2) := rfl

theorem after_of_ok (hs : statementAt? t s = some span)
    (h : ofStatement symbols span = .ok reordered) :
    after symbols t s = t.fill s (filled span reordered) := by
  rw [after, convertAt_of_ok hs h]

theorem after_of_not_fills (h : ¬ Fills symbols t s) : after symbols t s = t := by
  rw [after]
  cases hs : statementAt? t s with
  | none => rw [convertAt_of_none hs]
  | some span =>
    cases hreordered : ofStatement symbols span with
    | error reason => rw [convertAt_of_error hs hreordered]
    | ok reordered => exact absurd ⟨span, reordered, hs, hreordered⟩ h

theorem statementAt?_after (h : Apart t r s) :
    statementAt? (after symbols t s) r = statementAt? t r ∧
      (statementAt? t r = none → (after symbols t s).toList.drop r = t.toList.drop r) := by
  by_cases hfills : Fills symbols t s
  · obtain ⟨span, reordered, hs, hreordered⟩ := hfills
    rw [after_of_ok hs hreordered]
    exact statementAt?_fill h hs (length_filled (length_reordered hs hreordered))
  · rw [after_of_not_fills hfills]
    exact ⟨rfl, fun _ => rfl⟩

theorem fills_after (h : Apart t r s) :
    Fills symbols (after symbols t s) r ↔ Fills symbols t r := by
  rw [Fills, (statementAt?_after h).1, Fills]

/-- A conversion ends alike, whether another statement was converted before or not. -/
theorem outcome_after (h : Apart t r s) :
    outcome symbols (after symbols t s) r = outcome symbols t r := by
  obtain ⟨hstatement, hdrop⟩ := @statementAt?_after limits symbols t r s h
  rw [outcome, outcome]
  cases hr : statementAt? t r with
  | none => rw [convertAt_of_none hr, convertAt_of_none (hstatement.trans hr), hdrop hr]
  | some span =>
    cases hreordered : ofStatement symbols span with
    | error reason =>
      rw [convertAt_of_error hr hreordered, convertAt_of_error (hstatement.trans hr) hreordered]
    | ok reordered =>
      rw [convertAt_of_ok hr hreordered, convertAt_of_ok (hstatement.trans hr) hreordered]

theorem apart_after {r' : Nat} (h : Apart t r r') (hr : Apart t r s) (hr' : Apart t r' s) :
    Apart (after symbols t s) r r' := by
  intro d e hd he
  rw [terminator?_eq, (statementAt?_after hr).1, ← terminator?_eq] at hd
  rw [terminator?_eq, (statementAt?_after hr').1, ← terminator?_eq] at he
  exact h d e hd he

/-- Two statements apart from each other can be converted in either order. -/
theorem after_comm (h : Apart t r s) :
    after symbols (after symbols t r) s = after symbols (after symbols t s) r := by
  by_cases hr : Fills symbols t r
  · by_cases hs : Fills symbols t s
    · obtain ⟨span, reordered, hr, hreordered⟩ := hr
      obtain ⟨other, reordered', hs, hreordered'⟩ := hs
      have hr' := (@statementAt?_after limits symbols t r s h).1.trans hr
      have hs' := (@statementAt?_after limits symbols t s r h.symm).1.trans hs
      rw [after_of_ok hs' hreordered', after_of_ok hr' hreordered, after_of_ok hr hreordered,
        after_of_ok hs hreordered']
      have hlength := length_filled (length_reordered hr hreordered)
      have hlength' := length_filled (length_reordered hs hreordered')
      have hspan := (length_of_statementAt? hr).2
      have hother := (length_of_statementAt? hs).2
      rcases h.length_le hr hs with hle | hle
      · exact Lexeme.Table.fill_comm (by omega) (by omega) (by omega)
      · exact (Lexeme.Table.fill_comm (by omega) (by omega) (by omega)).symm
    · rw [after_of_not_fills hs, after_of_not_fills (mt (fills_after h.symm).mp hs)]
  · rw [after_of_not_fills hr, after_of_not_fills (mt (fills_after h).mp hr)]

variable {starts order : List Nat}

theorem pairwise_after (h : (r :: starts).Pairwise (Apart t)) :
    starts.Pairwise (Apart (after symbols t r)) := by
  obtain ⟨hr, hstarts⟩ := List.pairwise_cons.mp h
  refine List.Pairwise.imp_of_mem (fun {a b} ha hb hab => ?_) hstarts
  exact apart_after hab (hr a ha).symm (hr b hb).symm

/-- Each statement ends as it does alone. -/
theorem outcomes_convertEach (h : order.Pairwise (Apart t)) :
    (convertEach symbols order t).1 = order.map fun s => (s, outcome symbols t s) := by
  induction order generalizing t with
  | nil => rfl
  | cons r rest ih =>
    rw [convertEach_cons, List.map_cons, ih (pairwise_after h)]
    refine congrArg (_ :: ·) ?_
    apply List.map_congr_left
    intro s hs
    rw [outcome_after ((List.pairwise_cons.mp h).1 s hs).symm]

theorem table_convertEach (hp : order.Perm starts) (h : order.Pairwise (Apart t)) :
    (convertEach symbols order t).2 = (convertEach symbols starts t).2 := by
  induction hp generalizing t with
  | nil => rfl
  | cons r _ ih => exact ih (pairwise_after h)
  | swap r s rest =>
    have hrs : Apart t s r := (List.pairwise_cons.mp h).1 r List.mem_cons_self
    rw [convertEach_cons, convertEach_cons, convertEach_cons, convertEach_cons, after_comm hrs]
  | trans hp _ ih ih' =>
    exact (ih h).trans (ih' ((hp.pairwise_iff Apart.symm).mp h))

/-- Statements that are apart from each other may be converted in any order: the table becomes the
same, and each of them ends as it would alone. -/
theorem convertEach_perm (symbols : Symbol.Table) (t : Lexeme.Table)
    (h : starts.Pairwise (Apart t)) (hp : order.Perm starts) :
    (convertEach symbols order t).2 = (convertEach symbols starts t).2 ∧
      (convertEach symbols order t).1 = order.map fun s => (s, outcome symbols t s) := by
  have horder := (hp.pairwise_iff Apart.symm).mpr h
  exact ⟨table_convertEach hp horder, outcomes_convertEach horder⟩

end

attribute [local instance] Limits.development

/-- Two statements side by side, the second malformed, and an expression that nothing ends. -/
def sideBySide : Lexeme.Table where
  entries := #[⟨.openParen, 1, none⟩, ⟨.literal, 1, none⟩, ⟨.closeParen, 1, none⟩,
    ⟨.semicolon, 1, none⟩, ⟨.literal, 2, none⟩, ⟨.plus, 2, none⟩, ⟨.semicolon, 2, none⟩,
    ⟨.literal, 3, none⟩]
  capacity := 8

theorem convertEach_sideBySide :
    [0, 4, 7].Pairwise (Apart sideBySide) ∧
    (convertEach (.empty 0) [7, 4, 0] sideBySide).2 =
      (convertEach (.empty 0) [0, 4, 7] sideBySide).2 ∧
    (convertEach (.empty 0) [7, 4, 0] sideBySide).1 =
      [(7, .error (.missingTerminator 7 (some 3))),
        (4, .error (.malformedExpression 4 2 "1 operands for 1 operators")), (0, .ok ⟨2, 2⟩)] := by
  have hapart : [0, 4, 7].Pairwise (Apart sideBySide) := by decide
  have horder : [7, 4, 0].Perm [0, 4, 7] := by decide
  obtain ⟨htable, houtcomes⟩ := convertEach_perm (.empty 0) sideBySide hapart horder
  exact ⟨hapart, htable, houtcomes.trans (by rfl)⟩

end Postfix
end Ttm
