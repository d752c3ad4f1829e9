import Ttm.Postfix.Statement

/-! Statements by their structure: what they are written as, and the postfix order of it. -/
namespace Ttm.Postfix

open Lexeme (Kind)

/-- How tightly the parts of an expression hang together. -/
inductive Level
  | factor
  | product
  | sum
  | list

/-- An expression over the labels `α` of its tokens. Parentheses without a callee hold a list
too. -/
inductive Tree (α : Type) : Level → Type
  | operand (o : α) : Tree α .factor
  | group (opening : α) (inner : Tree α .list) (closing : α) : Tree α .factor
  | callNone (callee opening closing : α) : Tree α .factor
  | call (callee opening : α) (arguments : Tree α .list) (closing : α) : Tree α .factor
  | ofFactor (t : Tree α .factor) : Tree α .product
  | multiply (left : Tree α .product) (operator : α) (right : Tree α .factor) : Tree α .product
  | ofProduct (t : Tree α .product) : Tree α .sum
  | add (left : Tree α .sum) (operator : α) (right : Tree α .product) : Tree α .sum
  | ofSum (t : Tree α .sum) : Tree α .list
  | append (left : Tree α .list) (comma : α) (right : Tree α .sum) : Tree α .list

/-- What a token does in an expression. -/
inductive Role
  | operand
  | callee
  | opening
  | closing
  | comma
  | additive
  | multiplicative
  deriving DecidableEq

def roleOf : Kind → Option Role
  | .identifier | .literal => some .operand
  | .call => some .callee
  | .openParen => some .opening
  | .closeParen => some .closing
  | .comma => some .comma
  | .plus | .minus => some .additive
  | .star | .slash | .percent => some .multiplicative
  | _ => none

namespace Tree

variable {α β : Type} {level : Level}

def tokens : {level : Level} → Tree α level → List α
  | _, operand o => [o]
  | _, group opening inner closing => opening :: inner.tokens ++ [closing]
  | _, callNone callee opening closing => [callee, opening, closing]
  | _, call callee opening arguments closing =>
    callee :: opening :: arguments.tokens ++ [closing]
  | _, ofFactor t | _, ofProduct t | _, ofSum t => t.tokens
  | _, multiply left operator right => left.tokens ++ operator :: right.tokens
  | _, add left operator right => left.tokens ++ operator :: right.tokens
  | _, append left comma right => left.tokens ++ comma :: right.tokens

/-- Operands in their order, each operator and callee behind what it applies to. -/
def postfixOrder : {level : Level} → Tree α level → List α
  | _, operand o => [o]
  | _, group _ inner _ => inner.postfixOrder
  | _, callNone callee _ _ => [callee]
  | _, call callee _ arguments _ => arguments.postfixOrder ++ [callee]
  | _, ofFactor t | _, ofProduct t | _, ofSum t => t.postfixOrder
  | _, multiply left operator right => left.postfixOrder ++ right.postfixOrder ++ [operator]
  | _, add left operator right => left.postfixOrder ++ right.postfixOrder ++ [operator]
  | _, append left _ right => left.postfixOrder ++ right.postfixOrder

def map (f : α → β) : {level : Level} → Tree α level → Tree β level
  | _, operand o => operand (f o)
  | _, group opening inner closing => group (f opening) (inner.map f) (f closing)
  | _, callNone callee opening closing => callNone (f callee) (f opening) (f closing)
  | _, call callee opening arguments closing =>
    call (f callee) (f opening) (arguments.map f) (f closing)
  | _, ofFactor t => ofFactor (t.map f)
  | _, multiply left operator right => multiply (left.map f) (f operator) (right.map f)
  | _, ofProduct t => ofProduct (t.map f)
  | _, add left operator right => add (left.map f) (f operator) (right.map f)
  | _, ofSum t => ofSum (t.map f)
  | _, append left comma right => append (left.map f) (f comma) (right.map f)

/-- Every token stands where its role puts it. -/
def Proper (role : α → Option Role) : {level : Level} → Tree α level → Prop
  | _, operand o => role o = some .operand
  | _, group opening inner closing =>
    role opening = some .opening ∧ inner.Proper role ∧ role closing = some .closing
  | _, callNone callee opening closing =>
    role callee = some .callee ∧ role opening = some .opening ∧ role closing = some .closing
  | _, call callee opening arguments closing =>
    role callee = some .callee ∧ role opening = some .opening ∧ arguments.Proper role ∧
      role closing = some .closing
  | _, ofFactor t | _, ofProduct t | _, ofSum t => t.Proper role
  | _, multiply left operator right =>
    left.Proper role ∧ role operator = some .multiplicative ∧ right.Proper role
  | _, add left operator right =>
    left.Proper role ∧ role operator = some .additive ∧ right.Proper role
  | _, append left comma right =>
    left.Proper role ∧ role comma = some .comma ∧ right.Proper role

theorem tokens_map (f : α → β) (t : Tree α level) : (t.map f).tokens = t.tokens.map f := by
  induction t <;> simp_all [tokens, map]

theorem postfixOrder_map (f : α → β) (t : Tree α level) :
    (t.map f).postfixOrder = t.postfixOrder.map f := by
  induction t <;> simp_all [postfixOrder, map]

theorem proper_map {role : β → Option Role} (f : α → β) (t : Tree α level) :
    (t.map f).Proper role ↔ t.Proper (role ∘ f) := by
  induction t <;> simp_all [Proper, map]

/-- A text may be read by any roles that agree with the given ones on its tokens. -/
theorem Proper.mono {role role' : α → Option Role} {t : Tree α level} (h : t.Proper role)
    (hrole : ∀ x ∈ t.tokens, ∀ r, role x = some r → role' x = some r) : t.Proper role' := by
  induction t <;> simp_all [Proper, tokens]

theorem Proper.role_of_mem {role : α → Option Role} {t : Tree α level} (h : t.Proper role)
    {x : α} (hx : x ∈ t.tokens) : ∃ r, role x = some r := by
  induction t <;> simp_all [Proper, tokens] <;> grind

theorem mem_tokens_of_mem_postfixOrder {t : Tree α level} {x : α} (hx : x ∈ t.postfixOrder) :
    x ∈ t.tokens := by
  induction t <;> simp_all [postfixOrder, tokens] <;> grind

theorem map_eq_append_cons {f : β → α} {labels : List β} {xs ys : List α} {o : α}
    (h : labels.map f = xs ++ o :: ys) :
    ∃ ls b rs, labels = ls ++ b :: rs ∧ ls.map f = xs ∧ f b = o ∧ rs.map f = ys := by
  obtain ⟨ls, tail, rfl, hl, htail⟩ := List.map_eq_append_iff.mp h
  obtain ⟨b, rs, rfl, hb, hr⟩ := List.map_eq_cons_iff.mp htail
  exact ⟨ls, b, rs, rfl, hl, hb, hr⟩

/-- The structure of a text carries over to anything the text is an image of. -/
theorem exists_of_map_eq_tokens (f : β → α) (t : Tree α level) {labels : List β}
    (h : labels.map f = t.tokens) : ∃ u : Tree β level, u.tokens = labels ∧ u.map f = t := by
  induction t generalizing labels with
  | operand o =>
    obtain ⟨b, rfl, rfl⟩ := List.map_eq_singleton_iff.mp h
    exact ⟨.operand b, rfl, rfl⟩
  | ofFactor t ih =>
    obtain ⟨u, rfl, rfl⟩ := ih h
    exact ⟨.ofFactor u, rfl, rfl⟩
  | ofProduct t ih =>
    obtain ⟨u, rfl, rfl⟩ := ih h
    exact ⟨.ofProduct u, rfl, rfl⟩
  | ofSum t ih =>
    obtain ⟨u, rfl, rfl⟩ := ih h
    exact ⟨.ofSum u, rfl, rfl⟩
  | multiply left operator right ihl ihr =>
    obtain ⟨ls, b, rs, rfl, hl, rfl, hr⟩ := map_eq_append_cons h
    obtain ⟨u, rfl, rfl⟩ := ihl hl
    obtain ⟨v, rfl, rfl⟩ := ihr hr
    exact ⟨.multiply u b v, rfl, rfl⟩
  | add left operator right ihl ihr =>
    obtain ⟨ls, b, rs, rfl, hl, rfl, hr⟩ := map_eq_append_cons h
    obtain ⟨u, rfl, rfl⟩ := ihl hl
    obtain ⟨v, rfl, rfl⟩ := ihr hr
    exact ⟨.add u b v, rfl, rfl⟩
  | append left comma right ihl ihr =>
    obtain ⟨ls, b, rs, rfl, hl, rfl, hr⟩ := map_eq_append_cons h
    obtain ⟨u, rfl, rfl⟩ := ihl hl
    obtain ⟨v, rfl, rfl⟩ := ihr hr
    exact ⟨.append u b v, rfl, rfl⟩
  | group opening inner closing ih =>
    obtain ⟨o, tail, rfl, rfl, htail⟩ := List.map_eq_cons_iff.mp h
    obtain ⟨ls, c, rs, rfl, hl, rfl, hr⟩ := map_eq_append_cons htail
    obtain rfl := List.map_eq_nil_iff.mp hr
    obtain ⟨u, rfl, rfl⟩ := ih hl
    exact ⟨.group o u c, rfl, rfl⟩
  | callNone callee opening closing =>
    obtain ⟨b, tail, rfl, rfl, htail⟩ := List.map_eq_cons_iff.mp h
    obtain ⟨o, tail', rfl, rfl, htail'⟩ := List.map_eq_cons_iff.mp htail
    obtain ⟨c, rfl, rfl⟩ := List.map_eq_singleton_iff.mp htail'
    exact ⟨.callNone b o c, rfl, rfl⟩
  | call callee opening arguments closing ih =>
    obtain ⟨b, tail, rfl, rfl, htail⟩ := List.map_eq_cons_iff.mp h
    obtain ⟨o, tail', rfl, rfl, htail'⟩ := List.map_eq_cons_iff.mp htail
    obtain ⟨ls, c, rs, rfl, hl, rfl, hr⟩ := map_eq_append_cons htail'
    obtain rfl := List.map_eq_nil_iff.mp hr
    obtain ⟨u, rfl, rfl⟩ := ih hl
    exact ⟨.call b o u c, rfl, rfl⟩

end Tree
end Ttm.Postfix
