import Ttm.Proofs.Postfix.Tree

/-! A statement that has a structure is put into the postfix order of that structure. -/
namespace Ttm.Postfix

open Lexeme (Kind)

namespace Tree

variable {α : Type} {level : Level}

/-- The operators that wait on the stack once the last token of an expression is read. -/
def pending : {level : Level} → Tree α level → List α
  | _, operand _ | _, group .. | _, callNone .. | _, call .. => []
  | _, ofFactor t | _, ofProduct t | _, ofSum t => t.pending
  | _, multiply _ operator _ => [operator]
  | _, add _ operator right => right.pending ++ [operator]
  | _, append _ _ right => right.pending

/-- What is put out until then. -/
def emitted : {level : Level} → Tree α level → List α
  | _, operand o => [o]
  | _, group _ inner _ => inner.postfixOrder
  | _, callNone callee _ _ => [callee]
  | _, call callee _ arguments _ => arguments.postfixOrder ++ [callee]
  | _, ofFactor t | _, ofProduct t | _, ofSum t => t.emitted
  | _, multiply left _ right => left.postfixOrder ++ right.postfixOrder
  | _, add left _ right | _, append left _ right => left.postfixOrder ++ right.emitted

theorem emitted_append_pending (t : Tree α level) : t.emitted ++ t.pending = t.postfixOrder := by
  induction t with
  | add left operator right _ ih | append left operator right _ ih =>
    simp [emitted, pending, postfixOrder, ← ih]
  | _ => simp_all [emitted, pending, postfixOrder]

theorem pending_factor (t : Tree α .factor) : t.pending = [] := by
  cases t <;> rfl

theorem emitted_factor (t : Tree α .factor) : t.emitted = t.postfixOrder := by
  rw [← emitted_append_pending, pending_factor, List.append_nil]

end Tree

def role (l : Lexeme) : Option Role := roleOf l.kind

/-- What the top of the stack may be where an expression begins. -/
def Level.admits : Level → Kind → Prop
  | factor, k => k ≠ .call
  | product, k => k = .openParen ∨ roleOf k = some .additive
  | sum, k | list, k => k = .openParen

def Level.Admits (level : Level) (stack : List Lexeme) : Prop :=
  ∀ top ∈ stack.head?, level.admits top.kind

variable {limits : Limits} {l : Lexeme} {rest stack output : List Lexeme} {level : Level}

theorem roleOf_cases {k : Kind} {r : Role} (h : roleOf k = some r) :
    match r with
    | .operand => k = .identifier ∨ k = .literal
    | .callee => k = .call
    | .opening => k = .openParen
    | .closing => k = .closeParen
    | .comma => k = .comma
    | .additive => k = .plus ∨ k = .minus
    | .multiplicative => k = .star ∨ k = .slash ∨ k = .percent := by
  cases k <;> cases h <;> simp

theorem priority_of_multiplicative {k : Kind} (h : roleOf k = some .multiplicative) :
    k.isArithmetic ∧ k.priority = some 3 := by
  rcases roleOf_cases h with rfl | rfl | rfl <;> exact ⟨rfl, rfl⟩

theorem priority_of_additive {k : Kind} (h : roleOf k = some .additive) :
    k.isArithmetic ∧ k.priority = some 2 := by
  rcases roleOf_cases h with rfl | rfl <;> exact ⟨rfl, rfl⟩

theorem shunt_operand (h : role l = some .operand) :
    shunt (l :: rest) stack output = shunt rest stack (l :: output) := by
  rcases roleOf_cases h with hk | hk <;> simp [shunt, hk, Kind.isArithmetic]

theorem shunt_callee (h : role l = some .callee) :
    shunt (l :: rest) stack output = shunt rest (l :: stack) output := by
  have hk : l.kind = .call := roleOf_cases h
  simp [shunt, hk]

theorem shunt_opening (h : role l = some .opening) :
    shunt (l :: rest) stack output = shunt rest (l :: stack) output := by
  have hk : l.kind = .openParen := roleOf_cases h
  simp [shunt, hk]

theorem takeWhile_append_head {p : Lexeme → Bool} {xs ys : List Lexeme} (hx : ∀ x ∈ xs, p x)
    (hy : ∀ y ∈ ys.head?, p y = false) :
    (xs ++ ys).takeWhile p = xs ∧ (xs ++ ys).dropWhile p = ys := by
  rw [List.takeWhile_append_of_pos hx, List.dropWhile_append_of_pos hx]
  cases ys with
  | nil => simp
  | cons y ys =>
    have hhead : p y = false := hy y rfl
    simp [hhead]

theorem Tree.kind_of_mem_pending {t : Tree Lexeme level} (h : t.Proper role) :
    ∀ o ∈ t.pending, o.kind.isArithmetic ∧ 2 ≤ o.kind.priority.getD 0 ∧
      (level = .product → o.kind.priority = some 3) := by
  induction t with
  | operand | group | callNone | call => simp [pending]
  | ofFactor t => simp [pending, pending_factor]
  | ofProduct t ih | ofSum t ih =>
    intro o ho
    exact ⟨(ih h o ho).1, (ih h o ho).2.1, fun hlevel => by cases hlevel⟩
  | multiply left operator right =>
    intro o ho
    obtain rfl := List.mem_singleton.mp ho
    obtain ⟨harith, hprio⟩ := priority_of_multiplicative h.2.1
    exact ⟨harith, by simp [hprio], fun _ => hprio⟩
  | add left operator right _ ih =>
    intro o ho
    refine ⟨?_, ?_, fun hlevel => by cases hlevel⟩ <;> rcases List.mem_append.mp ho with ho | ho
    · exact (ih h.2.2 o ho).1
    · obtain rfl := List.mem_singleton.mp ho
      exact (priority_of_additive h.2.1).1
    · exact (ih h.2.2 o ho).2.1
    · obtain rfl := List.mem_singleton.mp ho
      simp [(priority_of_additive h.2.1).2]
  | append left comma right _ ih =>
    intro o ho
    exact ⟨(ih h.2.2 o ho).1, (ih h.2.2 o ho).2.1, fun hlevel => by cases hlevel⟩

theorem isOpen_of_mem_pending {t : Tree Lexeme level} (h : t.Proper role) :
    ∀ o ∈ t.pending, !isOpen o := by
  intro o ho
  have hk := (Tree.kind_of_mem_pending h o ho).1
  cases hopen : isOpen o with
  | false => rfl
  | true =>
    have hparen : o.kind = .openParen := by simpa [isOpen] using hopen
    simp [hparen, Kind.isArithmetic] at hk

/-- An operator sends out what waits of its left operand, and waits itself. -/
theorem shunt_operator {waiting : List Lexeme} (hl : l.kind.isArithmetic)
    (hw : ∀ o ∈ waiting, appliesBefore l.kind o)
    (hs : ∀ top ∈ stack.head?, appliesBefore l.kind top = false) :
    shunt (l :: rest) (waiting ++ stack) output =
      shunt rest (l :: stack) (waiting.reverse ++ output) := by
  obtain ⟨htake, hdrop⟩ := takeWhile_append_head hw hs
  cases hk : l.kind
  case plus | minus | star | slash | percent =>
    rw [hk] at htake hdrop
    simp [shunt, hk, Kind.isArithmetic, htake, hdrop]
  all_goals
    rw [hk] at hl
    cases hl

theorem shunt_comma {waiting : List Lexeme} (h : role l = some .comma)
    (hw : ∀ o ∈ waiting, !isOpen o) (hs : ∀ top ∈ stack.head?, isOpen top) :
    shunt (l :: rest) (waiting ++ stack) output =
      shunt rest stack (waiting.reverse ++ output) := by
  have hk : l.kind = .comma := roleOf_cases h
  obtain ⟨htake, hdrop⟩ := takeWhile_append_head hw (by simpa using hs)
  simp [shunt, hk, htake, hdrop]

theorem isOpen_of_opening {opening : Lexeme} (h : role opening = some .opening) :
    isOpen opening := by
  have hk : opening.kind = .openParen := roleOf_cases h
  simp [isOpen, hk]

theorem shunt_closing {waiting below : List Lexeme} {opening : Lexeme}
    (h : role l = some .closing) (ho : role opening = some .opening)
    (hw : ∀ o ∈ waiting, !isOpen o) (hb : ∀ top ∈ below.head?, top.kind ≠ .call) :
    shunt (l :: rest) (waiting ++ opening :: below) output =
      shunt rest below (waiting.reverse ++ output) := by
  have hk : l.kind = .closeParen := roleOf_cases h
  obtain ⟨htake, hdrop⟩ := @takeWhile_append_head (!isOpen ·) waiting (opening :: below) hw
    (by simpa using isOpen_of_opening ho)
  cases below with
  | nil => simp [shunt, hk, htake, hdrop]
  | cons top bottom =>
    have htop : top.kind ≠ .call := hb top rfl
    simp [shunt, hk, htake, hdrop, htop]

theorem shunt_closing_call {waiting below : List Lexeme} {opening callee : Lexeme}
    (h : role l = some .closing) (ho : role opening = some .opening)
    (hc : role callee = some .callee) (hw : ∀ o ∈ waiting, !isOpen o) :
    shunt (l :: rest) (waiting ++ opening :: callee :: below) output =
      shunt rest below (callee :: (waiting.reverse ++ output)) := by
  have hk : l.kind = .closeParen := roleOf_cases h
  have hcall : callee.kind = .call := roleOf_cases hc
  obtain ⟨htake, hdrop⟩ := @takeWhile_append_head (!isOpen ·) waiting (opening :: callee :: below)
    hw (by simpa using isOpen_of_opening ho)
  simp [shunt, hk, htake, hdrop, hcall]

theorem appliesBefore_multiplicative {operator top : Lexeme}
    (h : role operator = some .multiplicative) (ha : top.kind.isArithmetic)
    (hp : top.kind.priority = some 3) : appliesBefore operator.kind top := by
  simp [appliesBefore, (priority_of_multiplicative h).2, ha, hp]

theorem appliesBefore_additive {operator top : Lexeme} (h : role operator = some .additive)
    (ha : top.kind.isArithmetic) (hp : 2 ≤ top.kind.priority.getD 0) :
    appliesBefore operator.kind top := by
  simp [appliesBefore, (priority_of_additive h).2, ha, hp]

theorem appliesBefore_of_admits_product {operator top : Lexeme}
    (h : role operator = some .multiplicative) (ht : Level.product.admits top.kind) :
    appliesBefore operator.kind top = false := by
  rcases ht with ht | ht
  · simp [appliesBefore, ht, Kind.isArithmetic]
  · simp [appliesBefore, (priority_of_multiplicative h).2, (priority_of_additive ht).2]

theorem appliesBefore_of_open {operator top : Lexeme} (ht : top.kind = .openParen) :
    appliesBefore operator.kind top = false := by
  simp [appliesBefore, ht, Kind.isArithmetic]

/-- Reading an expression puts out its postfix order but for the operators that wait. -/
theorem shunt_tokens (t : Tree Lexeme level) (hp : t.Proper role) (hs : level.Admits stack) :
    shunt (t.tokens ++ rest) stack output =
      shunt rest (t.pending ++ stack) (t.emitted.reverse ++ output) := by
  induction t generalizing rest stack output with
  | operand o => exact shunt_operand hp
  | ofFactor t ih =>
    refine ih hp fun top htop => ?_
    rcases hs top htop with h | h
    · simp [Level.admits, h]
    · rcases roleOf_cases h with h | h <;> simp [Level.admits, h]
  | ofProduct t ih => exact ih hp fun top htop => Or.inl (hs top htop)
  | ofSum t ih => exact ih hp hs
  | multiply left operator right ihl ihr =>
    obtain ⟨hl, ho, hr⟩ := hp
    have hright : Level.factor.Admits (operator :: stack) := by
      rintro top ⟨⟩
      rcases roleOf_cases ho with h | h | h <;> simp [Level.admits, h]
    have harith : operator.kind.isArithmetic := (priority_of_multiplicative ho).1
    have hbefore : ∀ o ∈ left.pending, appliesBefore operator.kind o := fun o hmem =>
      have hkind := Tree.kind_of_mem_pending hl o hmem
      appliesBefore_multiplicative ho hkind.1 (hkind.2.2 rfl)
    have hstack : ∀ top ∈ stack.head?, appliesBefore operator.kind top = false := fun top htop =>
      appliesBefore_of_admits_product ho (hs top htop)
    rw [Tree.tokens, List.append_assoc, ihl hl hs, List.cons_append,
      shunt_operator harith hbefore hstack, ihr hr hright, Tree.pending_factor,
      Tree.emitted_factor, Tree.emitted, Tree.pending,
      ← Tree.emitted_append_pending left]
    simp
  | add left operator right ihl ihr =>
    obtain ⟨hl, ho, hr⟩ := hp
    have hright : Level.product.Admits (operator :: stack) := by
      rintro top ⟨⟩
      exact Or.inr ho
    have harith : operator.kind.isArithmetic := (priority_of_additive ho).1
    have hbefore : ∀ o ∈ left.pending, appliesBefore operator.kind o := fun o hmem =>
      have hkind := Tree.kind_of_mem_pending hl o hmem
      appliesBefore_additive ho hkind.1 hkind.2.1
    rw [Tree.tokens, List.append_assoc, ihl hl hs, List.cons_append,
      shunt_operator harith hbefore fun top htop => appliesBefore_of_open (hs top htop),
      ihr hr hright, Tree.emitted, Tree.pending, ← Tree.emitted_append_pending left]
    simp
  | append left comma right ihl ihr =>
    obtain ⟨hl, hc, hr⟩ := hp
    have hopen : ∀ top ∈ stack.head?, isOpen top := fun top htop => by
      have hk : top.kind = .openParen := hs top htop
      simp [isOpen, hk]
    rw [Tree.tokens, List.append_assoc, ihl hl hs, List.cons_append,
      shunt_comma hc (isOpen_of_mem_pending hl) hopen, ihr hr hs, Tree.emitted, Tree.pending,
      ← Tree.emitted_append_pending left]
    simp
  | group opening inner closing ih =>
    obtain ⟨ho, hi, hc⟩ := hp
    have hinner : Level.list.Admits (opening :: stack) := by
      rintro top ⟨⟩
      exact roleOf_cases ho
    rw [Tree.tokens, List.cons_append, List.cons_append, shunt_opening ho, List.append_assoc,
      ih hi hinner, List.singleton_append, shunt_closing hc ho (isOpen_of_mem_pending hi) hs,
      Tree.emitted, Tree.pending, ← Tree.emitted_append_pending inner]
    simp
  | callNone callee opening closing =>
    obtain ⟨hf, ho, hc⟩ := hp
    simp only [Tree.tokens, List.cons_append, List.nil_append]
    rw [shunt_callee hf, shunt_opening ho]
    exact @shunt_closing_call _ _ _ [] _ _ _ hc ho hf (by simp)
  | call callee opening arguments closing ih =>
    obtain ⟨hf, ho, ha, hc⟩ := hp
    have hinner : Level.list.Admits (opening :: callee :: stack) := by
      rintro top ⟨⟩
      exact roleOf_cases ho
    rw [Tree.tokens, List.cons_append, List.cons_append, List.cons_append, shunt_callee hf,
      List.cons_append, shunt_opening ho, List.append_assoc, ih ha hinner, List.singleton_append,
      shunt_closing_call hc ho hf (isOpen_of_mem_pending ha), Tree.emitted, Tree.pending,
      ← Tree.emitted_append_pending arguments]
    simp

theorem reorder_tokens {t : Tree Lexeme level} {terminator : Lexeme} (hp : t.Proper role)
    (ht : terminator.kind = .semicolon) :
    reorder (t.tokens ++ [terminator]) = .ok (t.postfixOrder ++ [terminator]) := by
  have hadmits : level.Admits [] := fun top htop => by cases htop
  have hfilter : t.pending.filter (!isOpen ·) = t.pending :=
    List.filter_eq_self.mpr (isOpen_of_mem_pending hp)
  rw [reorder, shunt_tokens t hp hadmits, List.append_nil, List.append_nil]
  simp [shunt, ht, hfilter, Except.map, ← Tree.emitted_append_pending t]

variable {symbols : Symbol.Table} {r : Role}

/-- The role of a lexeme before the calls are marked. -/
def roleIn (symbols : Symbol.Table) (l : Lexeme) : Option Role :=
  if isCallee symbols l then some .callee else if l.kind = .call then none else role l

theorem role_markCall (h : roleIn symbols l = some r) : role (markCall symbols l) = some r := by
  unfold roleIn at h
  unfold markCall
  split at h
  · rw [if_pos ‹_›]
    exact h
  · rw [if_neg ‹_›]
    split at h
    · cases h
    · exact h

theorem Tree.proper_markCall {t : Tree Lexeme level} (h : t.Proper (roleIn symbols)) :
    (t.map (markCall symbols)).Proper role := by
  rw [proper_map]
  induction t <;> simp_all [Proper, role_markCall]

theorem roleIn_cases (h : roleIn symbols l = some r) :
    isCallee symbols l = true ∧ l.kind = .identifier ∧ r = .callee ∨
    isCallee symbols l = false ∧ r ≠ .callee ∧ role l = some r := by
  unfold roleIn at h
  split at h
  · next hc =>
    have hk : l.kind = .identifier := by
      simp only [isCallee, Bool.and_eq_true, beq_iff_eq] at hc
      exact hc.1
    exact Or.inl ⟨hc, hk, (Option.some.inj h).symm⟩
  · next hc =>
    split at h
    · cases h
    · next hk =>
      refine Or.inr ⟨by simpa using hc, ?_, h⟩
      rintro rfl
      exact hk (roleOf_cases h)

theorem weigh_operand {w : Tally} (h : roleIn symbols l = some .operand) :
    weigh symbols l rest w = .ok (w.addOperands 1) := by
  rcases roleIn_cases h with ⟨-, -, hr⟩ | ⟨hc, -, hr⟩
  · cases hr
  · rcases roleOf_cases hr with hk | hk <;> simp [weigh, hk, hc]

theorem weigh_callee {w : Tally} (h : roleIn symbols l = some .callee) :
    weigh symbols l rest w = .ok (if opensEmptyList rest then w.addOperands 1 else w) := by
  rcases roleIn_cases h with ⟨hc, hk, -⟩ | ⟨-, hr, -⟩
  · simp [weigh, hk, hc]
  · exact absurd rfl hr

theorem weigh_opening {w : Tally} (h : roleIn symbols l = some .opening) :
    weigh symbols l rest w = .ok { w with opened := w.opened + 1 } := by
  rcases roleIn_cases h with ⟨-, -, hr⟩ | ⟨-, -, hr⟩
  · cases hr
  · simp [weigh, show l.kind = .openParen from roleOf_cases hr]

theorem weigh_closing {w : Tally} (h : roleIn symbols l = some .closing) :
    weigh symbols l rest w = .ok { w with closed := w.closed + 1 } := by
  rcases roleIn_cases h with ⟨-, -, hr⟩ | ⟨-, -, hr⟩
  · cases hr
  · simp [weigh, show l.kind = .closeParen from roleOf_cases hr]

theorem weigh_comma {w : Tally} (h : roleIn symbols l = some .comma) :
    weigh symbols l rest w = .ok (w.addOperands (-1)) := by
  rcases roleIn_cases h with ⟨-, -, hr⟩ | ⟨-, -, hr⟩
  · cases hr
  · simp [weigh, show l.kind = .comma from roleOf_cases hr]

theorem weigh_operator {w : Tally}
    (h : roleIn symbols l = some .additive ∨ roleIn symbols l = some .multiplicative) :
    weigh symbols l rest w = .ok { w with operators := w.operators + 1 } := by
  rcases h with h | h <;> rcases roleIn_cases h with ⟨-, -, hr⟩ | ⟨-, -, hr⟩
  · cases hr
  · rcases roleOf_cases hr with hk | hk <;> simp [weigh, hk, Kind.isArithmetic]
  · cases hr
  · rcases roleOf_cases hr with hk | hk | hk <;> simp [weigh, hk, Kind.isArithmetic]

theorem tally_cons {w w' : Tally} (h : weigh symbols l rest w = .ok w') :
    tally symbols (l :: rest) w = tally symbols rest w' := by
  rw [tally, h]

theorem Tree.head_ne_closing {t : Tree Lexeme level} (h : t.Proper (roleIn symbols)) :
    ∃ first tail, t.tokens = first :: tail ∧ roleIn symbols first ≠ some .closing := by
  induction t with
  | operand o => exact ⟨o, [], rfl, by simp [show roleIn symbols o = _ from h]⟩
  | group opening inner closing _ =>
    exact ⟨opening, _, rfl, by simp [h.1]⟩
  | callNone callee opening closing => exact ⟨callee, _, rfl, by simp [h.1]⟩
  | call callee opening arguments closing _ => exact ⟨callee, _, rfl, by simp [h.1]⟩
  | ofFactor t ih | ofProduct t ih | ofSum t ih => exact ih h
  | multiply left operator right ih | add left operator right ih | append left operator right ih =>
    obtain ⟨first, tail, htokens, hrole⟩ := ih h.1
    exact ⟨first, tail ++ operator :: right.tokens, by simp [tokens, htokens], hrole⟩

theorem roleIn_closing {k : Lexeme} (h : k.kind = .closeParen) :
    roleIn symbols k = some .closing := by
  simp [roleIn, isCallee, role, roleOf, h]

theorem opensEmptyList_of_closing {opening closing : Lexeme}
    (ho : roleIn symbols opening = some .opening) (hc : roleIn symbols closing = some .closing) :
    opensEmptyList (opening :: closing :: rest) := by
  rcases roleIn_cases ho with ⟨-, -, hr⟩ | ⟨-, -, ho⟩
  · cases hr
  rcases roleIn_cases hc with ⟨-, -, hr⟩ | ⟨-, -, hc⟩
  · cases hr
  simp [opensEmptyList, show opening.kind = .openParen from roleOf_cases ho,
    show closing.kind = .closeParen from roleOf_cases hc]

theorem opensEmptyList_tokens {t : Tree Lexeme level} {opening : Lexeme}
    (h : t.Proper (roleIn symbols)) : opensEmptyList (opening :: (t.tokens ++ rest)) = false := by
  obtain ⟨first, tail, htokens, hrole⟩ := Tree.head_ne_closing h
  have hk : first.kind ≠ .closeParen := fun hk => hrole (roleIn_closing hk)
  simp [htokens, opensEmptyList, hk]

/-- Counting `xs` adds so many operands, less the operators, and so many open brackets. -/
def Counts (symbols : Symbol.Table) (xs : List Lexeme) (operands brackets : Int) : Prop :=
  ∀ rest w, ∃ w', tally symbols (xs ++ rest) w = tally symbols rest w' ∧
    w'.operands - w'.operators = w.operands - w.operators + operands ∧
    (w'.opened : Int) - w'.closed = w.opened - w.closed + brackets

theorem Counts.append {xs ys : List Lexeme} {m n d e : Int} (hx : Counts symbols xs m d)
    (hy : Counts symbols ys n e) : Counts symbols (xs ++ ys) (m + n) (d + e) := by
  intro rest w
  obtain ⟨u, hu, hum, hud⟩ := hx (ys ++ rest) w
  obtain ⟨v, hv, hvn, hve⟩ := hy rest u
  exact ⟨v, by rw [List.append_assoc, hu, hv], by omega, by omega⟩

theorem Counts.cons {ys : List Lexeme} {m n d e : Int} (hx : Counts symbols [l] m d)
    (hy : Counts symbols ys n e) : Counts symbols (l :: ys) (m + n) (d + e) := hx.append hy

theorem counts_operand (h : roleIn symbols l = some .operand) : Counts symbols [l] 1 0 := by
  intro rest w
  exact ⟨_, tally_cons (weigh_operand h), by simp [Tally.addOperands]; omega,
    by simp [Tally.addOperands]⟩

theorem counts_opening (h : roleIn symbols l = some .opening) : Counts symbols [l] 0 1 := by
  intro rest w
  exact ⟨_, tally_cons (weigh_opening h), by simp, by simp; omega⟩

theorem counts_closing (h : roleIn symbols l = some .closing) : Counts symbols [l] 0 (-1) := by
  intro rest w
  exact ⟨_, tally_cons (weigh_closing h), by simp, by simp; omega⟩

theorem counts_comma (h : roleIn symbols l = some .comma) : Counts symbols [l] (-1) 0 := by
  intro rest w
  exact ⟨_, tally_cons (weigh_comma h), by simp [Tally.addOperands]; omega,
    by simp [Tally.addOperands]⟩

theorem counts_operator
    (h : roleIn symbols l = some .additive ∨ roleIn symbols l = some .multiplicative) :
    Counts symbols [l] (-1) 0 := by
  intro rest w
  exact ⟨_, tally_cons (weigh_operator h), by simp; omega, by simp⟩

/-- An expression counts as one operand, and its brackets are paired. -/
theorem counts_tokens (t : Tree Lexeme level) (hp : t.Proper (roleIn symbols)) :
    Counts symbols t.tokens 1 0 := by
  induction t with
  | operand o => exact counts_operand hp
  | ofFactor t ih | ofProduct t ih | ofSum t ih => exact ih hp
  | multiply left operator right ihl ihr =>
    exact (ihl hp.1).append ((counts_operator (Or.inr hp.2.1)).cons (ihr hp.2.2))
  | add left operator right ihl ihr =>
    exact (ihl hp.1).append ((counts_operator (Or.inl hp.2.1)).cons (ihr hp.2.2))
  | append left comma right ihl ihr =>
    exact (ihl hp.1).append ((counts_comma hp.2.1).cons (ihr hp.2.2))
  | group opening inner closing ih =>
    exact (counts_opening hp.1).cons ((ih hp.2.1).append (counts_closing hp.2.2))
  | callNone callee opening closing =>
    obtain ⟨hf, ho, hc⟩ := hp
    intro rest w
    obtain ⟨w', hw, hoperands, hbrackets⟩ :=
      (counts_opening ho).cons (counts_closing hc) rest (w.addOperands 1)
    refine ⟨w', ?_, by rw [hoperands]; simp [Tally.addOperands]; omega, hbrackets⟩
    rw [← hw]
    refine tally_cons ((weigh_callee hf).trans ?_)
    rw [if_pos]
    exact opensEmptyList_of_closing ho hc
  | call callee opening arguments closing ih =>
    obtain ⟨hf, ho, ha, hc⟩ := hp
    intro rest w
    obtain ⟨w', hw, hcounts⟩ :=
      (counts_opening ho).cons ((ih ha).append (counts_closing hc)) rest w
    refine ⟨w', ?_, hcounts⟩
    rw [← hw]
    refine tally_cons ((weigh_callee hf).trans ?_)
    have hlist : opensEmptyList (opening :: (arguments.tokens ++ [closing]) ++ rest) = false := by
      rw [List.cons_append, List.append_assoc]
      exact opensEmptyList_tokens ha
    exact congrArg Except.ok (if_neg (Bool.eq_false_iff.mp hlist))

/-- A statement that has a structure becomes its postfix order, calls marked. -/
theorem ofStatement_tokens {t : Tree Lexeme level} {terminator : Lexeme}
    (hp : t.Proper (roleIn symbols)) (ht : terminator.kind = .semicolon)
    (hlength : t.tokens.length + 1 ≤ Limits.maxStatementLength) :
    ofStatement symbols (t.tokens ++ [terminator]) =
      .ok (t.postfixOrder.map (markCall symbols) ++ [terminator]) := by
  obtain ⟨w, hw, hoperands, hbrackets⟩ := counts_tokens t hp [terminator] {}
  have hmark : markCall symbols terminator = terminator := by
    simp [markCall, isCallee, ht]
  have htally : tally symbols (t.tokens ++ [terminator]) {} = .ok w := by
    rw [hw]
    simp [tally, weigh, ht]
  have hcheck : w.check = .ok () := by
    simp at hoperands hbrackets
    have hopened : w.opened = w.closed := by omega
    simp [Tally.check, hopened, hoperands]
  have hmarked : markCalls symbols (t.tokens ++ [terminator]) =
      .ok ((t.map (markCall symbols)).tokens ++ [terminator]) := by
    simp [markCalls, htally, hcheck, bind, Except.bind, pure, Except.pure, Tree.tokens_map, hmark]
  have hshort : ¬ Limits.maxStatementLength < (t.tokens ++ [terminator]).length := by
    rw [List.length_append, List.length_singleton]
    omega
  have horder := reorder_tokens (Tree.proper_markCall hp) ht
  rw [Tree.postfixOrder_map] at horder
  simp only [ofStatement, hshort, if_false, hmarked, bind, Except.bind]
  exact horder

end Ttm.Postfix
