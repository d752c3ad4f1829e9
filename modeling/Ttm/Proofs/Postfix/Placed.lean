import Ttm.Proofs.Postfix.Balance
import Ttm.Proofs.Postfix.Expression
import Ttm.Proofs.Postfix.Nesting

/-! Which texts spell an expression: parentheses are paired, each lexeme stands where one of its
kind may stand, and commas stand in argument lists. -/
namespace Ttm.Postfix

open Lexeme (Kind)

/-- A text spells an expression of the grammar. -/
def Derives (symbols : Symbol.Table) (ls : List Lexeme) : Prop :=
  ∃ e : Tree Lexeme .sum, e.Proper (roleIn symbols) ∧ e.Single ∧ e.tokens = ls

/-- What may come behind a token, if no parenthesis is closed that is not open. -/
def Want.after : Want → Role → Option Want
  | operand, .operand | argument, .operand => some operator
  | operand, .callee | argument, .callee => some list
  | operand, .opening | argument, .opening => some operand
  | list, .opening => some argument
  | argument, .closing | operator, .closing => some operator
  | operator, .comma | operator, .additive | operator, .multiplicative => some operand
  | _, _ => none

def Want.behind (symbols : Symbol.Table) (want : Want) (l : Lexeme) : Option Want :=
  (roleIn symbols l).bind want.after

/-- The last parenthesis that these lexemes leave open is that of an argument list. -/
def InArguments (symbols : Symbol.Table) (ls : List Lexeme) : Prop :=
  ∃ front callee opening args, ls = front ++ callee :: opening :: args ∧
    isCallee symbols callee ∧ opening.kind = .openParen ∧ Paired args

/-- The commas of a text with `front` before it stand in argument lists. -/
def CommasPlaced (symbols : Symbol.Table) (front ls : List Lexeme) : Prop :=
  ∀ before comma behind, ls = before ++ comma :: behind → comma.kind = .comma →
    InArguments symbols (front ++ before)

/-- Every lexeme of a text stands where one of its kind may stand in an expression. -/
structure WellPlaced (symbols : Symbol.Table) (ls : List Lexeme) : Prop where
  follows : ls.foldlM (Want.behind symbols) .operand = some .operator
  commas : CommasPlaced symbols [] ls

section

variable {limits : Limits} {symbols : Symbol.Table} {t t' : Lexeme.Table}
  {l callee comma opening opening' terminator : Lexeme} {d e start : Nat} {want want' : Want}
  {r : Role} {level : Level}
  {ls front front' args args' before behind inner span reordered : List Lexeme}

theorem kind_of_roleIn (h : roleIn symbols l = some r) : match r with
    | .callee => isCallee symbols l = true
    | .opening => l.kind = .openParen
    | .closing => l.kind = .closeParen
    | .comma => l.kind = .comma
    | _ => l.kind ≠ .openParen ∧ l.kind ≠ .closeParen := by
  rcases roleIn_cases h with ⟨hc, -, rfl⟩ | ⟨-, hne, hr⟩
  · exact hc
  · have hkind := roleOf_cases hr
    cases r <;> grind

theorem not_isCallee_of_roleIn (h : roleIn symbols l = some r) (hr : r ≠ .callee) :
    isCallee symbols l = false := by
  rcases roleIn_cases h with ⟨-, -, rfl⟩ | ⟨hc, -⟩
  · exact absurd rfl hr
  · exact hc

theorem deeper_of_roleIn (h : roleIn symbols l = some r) : deeper d l = match r, d with
    | .opening, d => some (d + 1)
    | .closing, 0 => none
    | .closing, d + 1 => some d
    | _, d => some d := by
  have hkind := kind_of_roleIn h
  have hother (hopen : l.kind ≠ .openParen) (hclose : l.kind ≠ .closeParen) :
      deeper d l = some d := deeper_eq_some.mpr (by simp [hopen, hclose])
  cases r with
  | opening => simp [deeper, show l.kind = _ from hkind]
  | closing => cases d <;> simp [deeper, show l.kind = _ from hkind]
  | callee => exact hother (by simp [kind_of_isCallee hkind]) (by simp [kind_of_isCallee hkind])
  | comma =>
    exact hother (by simp [show l.kind = _ from hkind]) (by simp [show l.kind = _ from hkind])
  | operand | additive | multiplicative => exact hother hkind.1 hkind.2

/-- Following a text is following its places and its parentheses. -/
theorem follow_eq_some : follow (roleIn symbols) (d, want) ls = some (e, want') ↔
    ls.foldlM (Want.behind symbols) want = some want' ∧ ls.foldlM deeper d = some e := by
  induction ls generalizing d want with
  | nil => simp [follow, and_comm]
  | cons l ls ih =>
    rw [follow, List.foldlM_cons, List.foldlM_cons, Want.behind]
    cases hr : roleIn symbols l with
    | none => simp
    | some r =>
      rw [deeper_of_roleIn hr]
      cases r <;> cases want <;> cases d <;> simp [Want.next, Want.after, ih]

/-- The parentheses of an expression are paired. -/
theorem Tree.foldlM_deeper_tokens (t : Tree Lexeme level) (ht : t.Proper (roleIn symbols))
    (d : Nat) : t.tokens.foldlM deeper d = some d := by
  induction t generalizing d with
  | operand o => simp [tokens, deeper_of_roleIn ht]
  | group opening inner closing ih =>
    simp [tokens, deeper_of_roleIn ht.1, ih ht.2.1, deeper_of_roleIn ht.2.2]
  | callNone callee opening closing =>
    simp [tokens, deeper_of_roleIn ht.1, deeper_of_roleIn ht.2.1, deeper_of_roleIn ht.2.2]
  | call callee opening arguments closing ih =>
    simp [tokens, deeper_of_roleIn ht.1, deeper_of_roleIn ht.2.1, ih ht.2.2.1,
      deeper_of_roleIn ht.2.2.2]
  | ofFactor t ih | ofProduct t ih | ofSum t ih => exact ih ht d
  | multiply left operator right ihl ihr | add left operator right ihl ihr
  | append left operator right ihl ihr =>
    simp [tokens, ihl ht.1, deeper_of_roleIn ht.2.1, ihr ht.2.2]

theorem Tree.paired_tokens {t : Tree Lexeme level} (ht : t.Proper (roleIn symbols)) :
    Paired t.tokens := t.foldlM_deeper_tokens ht 0

theorem behind_of_roleIn (h : roleIn symbols l = some r) :
    want.behind symbols l = want.after r := by
  rw [Want.behind, h, Option.bind_some]

/-- The lexemes of an expression follow each other. -/
theorem Tree.foldlM_behind_tokens (t : Tree Lexeme level) (ht : t.Proper (roleIn symbols))
    (hw : want = .operand ∨ want = .argument) :
    t.tokens.foldlM (Want.behind symbols) want = some .operator := by
  induction t generalizing want with
  | operand o => rcases hw with rfl | rfl <;> simp [tokens, behind_of_roleIn ht, Want.after]
  | group opening inner closing ih =>
    rcases hw with rfl | rfl <;>
      simp [tokens, behind_of_roleIn ht.1, Want.after, ih ht.2.1, behind_of_roleIn ht.2.2]
  | callNone callee opening closing =>
    rcases hw with rfl | rfl <;>
      simp [tokens, behind_of_roleIn ht.1, behind_of_roleIn ht.2.1, behind_of_roleIn ht.2.2,
        Want.after]
  | call callee opening arguments closing ih =>
    rcases hw with rfl | rfl <;>
      simp [tokens, behind_of_roleIn ht.1, behind_of_roleIn ht.2.1, ih ht.2.2.1,
        behind_of_roleIn ht.2.2.2, Want.after]
  | ofFactor t ih | ofProduct t ih | ofSum t ih => exact ih ht hw
  | multiply left operator right ihl ihr | add left operator right ihl ihr
  | append left operator right ihl ihr =>
    simp [tokens, ihl ht.1 hw, behind_of_roleIn ht.2.1, Want.after, ihr ht.2.2]

/-- A parenthesis in front of a paired text is left open. -/
theorem not_paired_of_open (ho : opening.kind = .openParen) (hp : Paired args) :
    ¬ Paired (front ++ opening :: args) := by
  intro h
  have hargs := foldlM_deeper hp
  rw [Paired, List.foldlM_append] at h
  obtain ⟨d, -, h⟩ := Option.bind_eq_some_iff.mp h
  obtain ⟨e, he, h⟩ := Option.bind_eq_some_iff.mp h
  have hopen := deeper_eq_some.mp he
  have hrest := foldlM_deeper h
  simp [ho] at hopen
  omega

/-- The parenthesis that is open last is the only one of its kind. -/
theorem eq_of_open (h : front ++ opening :: args = front' ++ opening' :: args')
    (ho : opening.kind = .openParen) (ho' : opening'.kind = .openParen) (hp : Paired args)
    (hp' : Paired args') : front = front' := by
  rcases List.append_eq_append_iff.mp h with ⟨as, rfl, has⟩ | ⟨as, rfl, has⟩ <;> cases as with
  | nil => simp
  | cons a as =>
    obtain ⟨-, rfl⟩ := List.cons.inj has
    first
    | exact absurd hp (not_paired_of_open ho' hp')
    | exact absurd hp' (not_paired_of_open ho hp)

/-- Where the parenthesis that is open last is that of an argument list, a callee is in front. -/
theorem exists_callee_of_inArguments (h : InArguments symbols (front ++ opening :: args))
    (ho : opening.kind = .openParen) (hp : Paired args) :
    ∃ c ∈ front.getLast?, isCallee symbols c := by
  obtain ⟨front', c, opening', args', heq, hc, ho', hp'⟩ := h
  rw [List.append_cons front' c] at heq
  rw [eq_of_open heq ho ho' hp hp']
  exact ⟨c, by simp, hc⟩

theorem not_inArguments_of_paired (hp : Paired ls) : ¬ InArguments symbols ls := by
  rintro ⟨front, c, opening, args, rfl, -, ho, hargs⟩
  rw [List.append_cons front c] at hp
  exact not_paired_of_open ho hargs hp

theorem commasPlaced_append : CommasPlaced symbols front (ls ++ inner) ↔
    CommasPlaced symbols front ls ∧ CommasPlaced symbols (front ++ ls) inner := by
  constructor
  · intro h
    refine ⟨fun before comma behind hls hk => ?_, fun before comma behind hinner hk => ?_⟩
    · exact h before comma (behind ++ inner) (by simp [hls]) hk
    · rw [List.append_assoc]
      exact h (ls ++ before) comma behind (by simp [hinner]) hk
  · rintro ⟨hls, hinner⟩ before comma behind h hk
    rcases List.append_eq_append_iff.mp h with ⟨as, rfl, has⟩ | ⟨as, rfl, has⟩
    · rw [← List.append_assoc]
      exact hinner as comma behind has hk
    · cases as with
      | nil => simpa using hinner [] comma behind has.symm hk
      | cons a as =>
        obtain ⟨rfl, rfl⟩ := List.cons.inj has
        exact hls before comma as rfl hk

theorem commasPlaced_singleton : CommasPlaced symbols front [l] ↔
    (l.kind = .comma → InArguments symbols front) := by
  constructor
  · intro h hk
    simpa using h [] l [] rfl hk
  · intro h before comma behind hl hk
    cases before with
    | nil =>
      obtain ⟨rfl, -⟩ := List.cons.inj hl
      simpa using h hk
    | cons => simp at hl

theorem commasPlaced_cons : CommasPlaced symbols front (l :: ls) ↔
    (l.kind = .comma → InArguments symbols front) ∧ CommasPlaced symbols (front ++ [l]) ls := by
  rw [← List.singleton_append, commasPlaced_append, commasPlaced_singleton]

theorem inArguments_opening (hc : isCallee symbols callee) (ho : opening.kind = .openParen) :
    InArguments symbols (front ++ [callee, opening]) :=
  ⟨front, callee, opening, [], rfl, hc, ho, rfl⟩

theorem InArguments.append (h : InArguments symbols front) (hp : Paired ls) :
    InArguments symbols (front ++ ls) := by
  obtain ⟨front, c, opening, args, rfl, hc, ho, hargs⟩ := h
  refine ⟨front, c, opening, args ++ ls, by simp, hc, ho, ?_⟩
  rw [Paired, List.foldlM_append, show args.foldlM deeper 0 = some 0 from hargs]
  exact hp

/-- Only a comma needs an argument list. -/
theorem commasPlaced_token (h : roleIn symbols l = some r) (hr : r ≠ .comma) :
    CommasPlaced symbols front (l :: ls) ↔ CommasPlaced symbols (front ++ [l]) ls := by
  refine commasPlaced_cons.trans (and_iff_right fun hk => ?_)
  rcases roleIn_cases h with ⟨-, hk', -⟩ | ⟨-, -, hrole⟩
  · cases hk.symm.trans hk'
  · rw [role, hk] at hrole
    exact absurd (Option.some.inj hrole).symm hr

theorem commasPlaced_nil : CommasPlaced symbols front [] := fun before comma behind h => by
  simp at h

/-- The commas of an expression stand in argument lists. -/
theorem Tree.commasPlaced (t : Tree Lexeme level) (ht : t.Proper (roleIn symbols))
    (hsingle : t.Single) (hseveral : t.isSeveral → InArguments symbols front) :
    CommasPlaced symbols front t.tokens := by
  induction t generalizing front with
  | operand o =>
    rw [tokens, commasPlaced_token ht (by simp)]
    exact commasPlaced_nil
  | group opening inner closing ih =>
    obtain ⟨ho, hinner, hclose⟩ := ht
    rw [tokens, List.cons_append, commasPlaced_token ho (by simp), commasPlaced_append,
      commasPlaced_token hclose (by simp)]
    exact ⟨ih hinner hsingle.2 (by simp [hsingle.1]), commasPlaced_nil⟩
  | callNone callee opening closing =>
    rw [tokens, commasPlaced_token ht.1 (by simp), commasPlaced_token ht.2.1 (by simp),
      commasPlaced_token ht.2.2 (by simp)]
    exact commasPlaced_nil
  | call callee opening arguments closing ih =>
    obtain ⟨hc, ho, hargs, hclose⟩ := ht
    rw [tokens, List.cons_append, List.cons_append, commasPlaced_token hc (by simp),
      commasPlaced_token ho (by simp), commasPlaced_append, commasPlaced_token hclose (by simp),
      List.append_assoc]
    exact ⟨ih hargs hsingle fun _ => inArguments_opening (kind_of_roleIn hc) (kind_of_roleIn ho),
      commasPlaced_nil⟩
  | ofFactor t ih | ofProduct t ih =>
    exact ih ht hsingle fun h => by simp [isSeveral_of_ne] at h
  | ofSum t ih => exact ih ht hsingle fun h => by simp [isSeveral_of_ne] at h
  | multiply left operator right ihl ihr | add left operator right ihl ihr =>
    obtain ⟨hl, ho, hr⟩ := ht
    rw [tokens, commasPlaced_append, commasPlaced_token ho (by simp)]
    exact ⟨ihl hl hsingle.1 (by simp [isSeveral_of_ne]),
      ihr hr hsingle.2 (by simp [isSeveral_of_ne])⟩
  | append left comma right ihl ihr =>
    obtain ⟨hl, -, hr⟩ := ht
    have hlist := hseveral rfl
    rw [tokens, commasPlaced_append, commasPlaced_cons]
    exact ⟨ihl hl hsingle.1 fun _ => hlist, fun _ => hlist.append (paired_tokens hl),
      ihr hr hsingle.2 (by simp [isSeveral_of_ne])⟩

/-- Where the commas of an expression stand in argument lists, parentheses without a callee hold
one expression. -/
theorem Tree.single_of_commasPlaced (t : Tree Lexeme level) (ht : t.Proper (roleIn symbols))
    (hfront : ∀ c ∈ front.getLast?, isCallee symbols c = false)
    (h : CommasPlaced symbols front t.tokens) : t.Single := by
  induction t generalizing front with
  | operand | callNone => trivial
  | group opening inner closing ih =>
    obtain ⟨ho, hinner, -⟩ := ht
    have hkind := kind_of_roleIn ho
    rw [tokens, List.cons_append, commasPlaced_token ho (by simp), commasPlaced_append] at h
    refine ⟨?_, ih hinner (by simp [isCallee, show opening.kind = _ from hkind]) h.1⟩
    cases inner with
    | ofSum => rfl
    | append left comma right =>
      have hbehind := (commasPlaced_append.mp h.1).2
      have hlist := (commasPlaced_cons.mp hbehind).1 (kind_of_roleIn hinner.2.1)
      rw [List.append_assoc, List.singleton_append] at hlist
      obtain ⟨c, hmem, hc⟩ := exists_callee_of_inArguments hlist hkind (paired_tokens hinner.1)
      exact absurd hc (by simp [hfront c hmem])
  | call callee opening arguments closing ih =>
    obtain ⟨hc, ho, hargs, -⟩ := ht
    rw [tokens, List.cons_append, List.cons_append, commasPlaced_token hc (by simp),
      commasPlaced_token ho (by simp), commasPlaced_append] at h
    exact ih hargs (by simp [isCallee, show opening.kind = _ from kind_of_roleIn ho]) h.1
  | ofFactor t ih | ofProduct t ih | ofSum t ih => exact ih ht hfront h
  | multiply left operator right ihl ihr | add left operator right ihl ihr =>
    obtain ⟨hl, ho, hr⟩ := ht
    rw [tokens, commasPlaced_append, commasPlaced_token ho (by simp)] at h
    exact ⟨ihl hl hfront h.1, ihr hr (by simp [not_isCallee_of_roleIn ho]) h.2⟩
  | append left comma right ihl ihr =>
    obtain ⟨hl, ho, hr⟩ := ht
    rw [tokens, commasPlaced_append, commasPlaced_cons] at h
    exact ⟨ihl hl hfront h.1, ihr hr (by simp [not_isCallee_of_roleIn ho]) h.2.2⟩

/-- Where parentheses are paired, standing in place is all there is to an expression. -/
theorem derives_iff_wellPlaced (hpaired : Paired ls) :
    Derives symbols ls ↔ WellPlaced symbols ls := by
  constructor
  · rintro ⟨e, he, hsingle, rfl⟩
    exact ⟨e.foldlM_behind_tokens he (.inl rfl),
      e.commasPlaced he hsingle (by simp [Tree.isSeveral_of_ne])⟩
  · rintro ⟨hfollows, hcommas⟩
    obtain ⟨t, ht, rfl⟩ := exists_tree (follow_eq_some.mpr ⟨hfollows, hpaired⟩)
    have hsingle := t.single_of_commasPlaced ht (by simp) hcommas
    cases t with
    | ofSum e => exact ⟨e, ht, hsingle, rfl⟩
    | append left comma right =>
      obtain ⟨hleft, hcomma, -⟩ := ht
      have hlist := hcommas left.tokens comma right.tokens rfl (kind_of_roleIn hcomma)
      exact absurd hlist (not_inArguments_of_paired (Tree.paired_tokens hleft))

/-- Counting decides which statements of a table are put into postfix order. -/
theorem exists_convertAt_iff : (∃ filling t', convertAt symbols start t = (.ok filling, t')) ↔
    ∃ inner terminator, statementAt? t start = some (inner ++ [terminator]) ∧
      Counted symbols inner terminator := by
  cases hspan : statementAt? t start with
  | none => simp [convertAt_of_none hspan]
  | some span =>
    obtain ⟨inner, terminator, rest, rfl, hterminator, hinner, -⟩ := statementAt?_eq_some.mp hspan
    have hcounted : (∃ reordered, ofStatement symbols (inner ++ [terminator]) = .ok reordered) ↔
        Counted symbols inner terminator := exists_ofStatement_iff hterminator hinner
    constructor
    · rintro ⟨filling, t', h⟩
      refine ⟨inner, terminator, rfl, hcounted.mp ?_⟩
      cases horder : ofStatement symbols (inner ++ [terminator]) with
      | ok reordered => exact ⟨reordered, rfl⟩
      | error reason =>
        rw [convertAt_of_error hspan horder] at h
        cases h
    · rintro ⟨inner', terminator', heq, h⟩
      obtain ⟨rfl, hlast⟩ := List.append_inj' (Option.some.inj heq) rfl
      cases hlast
      obtain ⟨reordered, horder⟩ := hcounted.mpr h
      exact ⟨_, _, convertAt_of_ok hspan horder⟩

/-- A statement that is put into postfix order is counted right. It spells an expression exactly
when its lexemes also stand in place, and then what it is put into computes one value, each call
taking as many as its list has arguments. -/
theorem derives_iff_of_convertAt {filling : Lexeme.Filling}
    (h : convertAt symbols start t = (.ok filling, t')) :
    ∃ inner terminator, statementAt? t start = some (inner ++ [terminator]) ∧
      Counted symbols inner terminator ∧ (Derives symbols inner ↔ WellPlaced symbols inner) ∧
      ∀ e : Tree Lexeme .sum, e.Proper (roleIn symbols) → e.Single → e.tokens = inner →
        (t'.toList.drop start).take filling.length =
            e.steps.map (fun step => markCall symbols step.1) ++ [terminator] ∧
          ∀ (V : Type) (f : Lexeme → List V → V),
            ∃ v, e.steps.foldlM (applyStep f) [] = some [v] := by
  obtain ⟨inner, terminator, hspan, hcounted⟩ := exists_convertAt_iff.mp ⟨filling, t', h⟩
  refine ⟨inner, terminator, hspan, hcounted, derives_iff_wellPlaced hcounted.paired, ?_⟩
  rintro e he hsingle rfl
  have hlength : (e.tokens ++ [terminator]).length ≤ Limits.maxStatementLength := by
    rw [List.length_append, List.length_singleton]
    exact hcounted.fits
  have horder := ofStatement_of_statementAt? he hspan hlength
  cases h.symm.trans (convertAt_of_ok hspan horder)
  refine ⟨?_, fun V f => e.exists_value f hsingle⟩
  rw [take_drop_filled hspan (length_reordered hspan horder), ← e.map_fst_steps, List.map_map]
  rfl

end

attribute [local instance] Limits.development

/-- A nested call is derived by its tree. What it is put into computes one value, here the number of
lexemes that are applied. -/
theorem derives_iff_nestedCalls : ∃ filling t',
    convertAt oneFunction 1 nestedCallsTable = (.ok filling, t') ∧
    Counted oneFunction nestedCalls.tokens (lexemeAt .semicolon) ∧
    Derives oneFunction nestedCalls.tokens ∧ WellPlaced oneFunction nestedCalls.tokens ∧
    (t'.toList.drop 1).take filling.length =
      nestedCalls.steps.map (fun step => markCall oneFunction step.1) ++ [lexemeAt .semicolon] ∧
    nestedCalls.steps.foldlM (applyStep fun _ counts => counts.foldl (· + ·) 1) [] = some [11] := by
  have hconverted : convertAt oneFunction 1 nestedCallsTable = (.ok ⟨12, 7⟩, _) := rfl
  obtain ⟨inner, terminator, hspan, hcounted, hiff, hcomputes⟩ :=
    derives_iff_of_convertAt hconverted
  obtain ⟨hinner, hlast⟩ := List.append_inj' (Option.some.inj hspan) rfl
  obtain ⟨rfl, rfl⟩ : inner = nestedCalls.tokens ∧ terminator = lexemeAt .semicolon :=
    ⟨hinner.symm, (List.cons.inj hlast).1.symm⟩
  have hsingle : nestedCalls.Single := by simp [nestedCalls, Tree.Single, Tree.isSeveral]
  have hderives : Derives oneFunction nestedCalls.tokens :=
    ⟨nestedCalls, proper_nestedCalls, hsingle, rfl⟩
  obtain ⟨htaken, hvalue⟩ := hcomputes nestedCalls proper_nestedCalls hsingle rfl
  obtain ⟨v, hv⟩ := hvalue Nat fun _ counts => counts.foldl (· + ·) 1
  obtain rfl : v = 11 := by
    cases hv
    rfl
  exact ⟨_, _, hconverted, hcounted, hderives, hiff.mp hderives, htaken, hv⟩

/-- Two operands in front of their operator. -/
def swapped : List Lexeme := [lexemeAt .literal, lexemeAt .literal, lexemeAt .plus]

def swappedTable : Lexeme.Table where
  entries := (swapped ++ [lexemeAt .semicolon]).toArray
  capacity := 4

/-- What is counted right need not be an expression. -/
theorem not_derives_swapped : ∃ filling t',
    convertAt oneFunction 0 swappedTable = (.ok filling, t') ∧
    statementAt? swappedTable 0 = some (swapped ++ [lexemeAt .semicolon]) ∧
    ¬ Derives oneFunction swapped := by
  refine ⟨_, _, rfl, rfl, fun h => ?_⟩
  have hpaired : Paired swapped := rfl
  have hplaced := ((derives_iff_wellPlaced hpaired).mp h).follows
  cases hplaced

end Ttm.Postfix
