import Ttm.Proofs.Postfix.Tree

/-! A text has a structure when its parentheses are paired and its tokens follow each other well. -/
namespace Ttm.Postfix

/-- What may come next. A callee wants its list, which ends at once where it has no arguments. -/
inductive Want
  | operand
  | operator
  | list
  | argument
  deriving DecidableEq

namespace Want

/-- What may come behind a token, and how many parentheses are open there. -/
def next : Nat → Want → Role → Option (Nat × Want)
  | d, operand, .operand | d, argument, .operand => some (d, operator)
  | d, operand, .callee | d, argument, .callee => some (d, list)
  | d, operand, .opening | d, argument, .opening => some (d + 1, operand)
  | d, list, .opening => some (d + 1, argument)
  | d + 1, argument, .closing | d + 1, operator, .closing => some (d, operator)
  | d, operator, .comma | d, operator, .additive | d, operator, .multiplicative =>
    some (d, operand)
  | _, _, _ => none

end Want

variable {α : Type} {role : α → Option Role}

/-- Goes through a text from a depth and what is wanted there. -/
def follow (role : α → Option Role) : Nat × Want → List α → Option (Nat × Want)
  | at_, [] => some at_
  | (d, want), x :: xs => do
    let r ← role x
    let after ← want.next d r
    follow role after xs

theorem follow_append {start : Nat × Want} {xs ys : List α} :
    follow role start (xs ++ ys) = (follow role start xs).bind (follow role · ys) := by
  induction xs generalizing start with
  | nil => rfl
  | cons x xs ih =>
    obtain ⟨d, want⟩ := start
    simp only [List.cons_append, follow]
    cases role x with
    | none => rfl
    | some r =>
      cases hnext : Want.next d want r with
      | none => simp [hnext]
      | some after => simp [hnext, ih]

/-- The beginning of an expression, up to where its next operand belongs. -/
def Partial (role : α → Option Role) (xs : List α) : Prop :=
  xs = [] ∨ ∃ (t : Tree α .list) (o : α), t.Proper role ∧
    (role o = some .multiplicative ∨ role o = some .additive ∨ role o = some .comma) ∧
    xs = t.tokens ++ [o]

/-- The text up to where an expression begins, with `d` parentheses open. -/
inductive Base (role : α → Option Role) : Nat → List α → Prop
  | start : Base role 0 []
  | group {d : Nat} {xs part : List α} {o : α} (h : Base role d xs) (hp : Partial role part)
    (ho : role o = some .opening) : Base role (d + 1) (xs ++ part ++ [o])
  | call {d : Nat} {xs part : List α} {c o : α} (h : Base role d xs) (hp : Partial role part)
    (hc : role c = some .callee) (ho : role o = some .opening) :
    Base role (d + 1) (xs ++ part ++ [c, o])

/-- The text read so far, by what is wanted next. -/
def Parsed (role : α → Option Role) (d : Nat) (ys : List α) : Want → Prop
  | .operand => ∃ xs part, Base role d xs ∧ Partial role part ∧ ys = xs ++ part
  | .operator => ∃ xs, ∃ t : Tree α .list, Base role d xs ∧ t.Proper role ∧ ys = xs ++ t.tokens
  | .list => ∃ xs part c, Base role d xs ∧ Partial role part ∧ role c = some .callee ∧
    ys = xs ++ part ++ [c]
  | .argument => ∃ e xs part c o, d = e + 1 ∧ Base role e xs ∧ Partial role part ∧
    role c = some .callee ∧ role o = some .opening ∧ ys = xs ++ part ++ [c, o]

namespace Tree

theorem exists_multiply {s : Tree α .sum} (hs : s.Proper role) {o : α}
    (ho : role o = some .multiplicative) {f : Tree α .factor} (hf : f.Proper role) :
    ∃ t : Tree α .sum, t.Proper role ∧ t.tokens = s.tokens ++ o :: f.tokens := by
  cases s with
  | ofProduct p => exact ⟨.ofProduct (.multiply p o f), ⟨hs, ho, hf⟩, rfl⟩
  | add left operator right =>
    exact ⟨.add left operator (.multiply right o f), ⟨hs.1, hs.2.1, hs.2.2, ho, hf⟩,
      by simp [tokens]⟩

theorem exists_add {s : Tree α .sum} (hs : s.Proper role) {o : α}
    (ho : role o = some .additive) {f : Tree α .factor} (hf : f.Proper role) :
    ∃ t : Tree α .sum, t.Proper role ∧ t.tokens = s.tokens ++ o :: f.tokens :=
  ⟨.add s o (.ofFactor f), ⟨hs, ho, hf⟩, rfl⟩

/-- The last expression of a list may be replaced by a longer one. -/
theorem exists_last {l : Tree α .list} (hl : l.Proper role) {more : List α}
    (h : ∀ s : Tree α .sum, s.Proper role →
      ∃ t : Tree α .sum, t.Proper role ∧ t.tokens = s.tokens ++ more) :
    ∃ t : Tree α .list, t.Proper role ∧ t.tokens = l.tokens ++ more := by
  cases l with
  | ofSum s =>
    obtain ⟨t, ht, htokens⟩ := h s hl
    exact ⟨.ofSum t, ht, htokens⟩
  | append left comma right =>
    obtain ⟨t, ht, htokens⟩ := h right hl.2.2
    exact ⟨.append left comma t, ⟨hl.1, hl.2.1, ht⟩, by simp [tokens, htokens]⟩

end Tree

/-- The operand that belongs behind the beginning of an expression completes it. -/
theorem Partial.attach {part : List α} (h : Partial role part) {f : Tree α .factor}
    (hf : f.Proper role) : ∃ t : Tree α .list, t.Proper role ∧ t.tokens = part ++ f.tokens := by
  rcases h with rfl | ⟨t, o, ht, ho, rfl⟩
  · exact ⟨.ofSum (.ofProduct (.ofFactor f)), hf, rfl⟩
  · rw [List.append_assoc, List.singleton_append]
    rcases ho with ho | ho | ho
    · exact Tree.exists_last ht fun s hs => Tree.exists_multiply hs ho hf
    · exact Tree.exists_last ht fun s hs => Tree.exists_add hs ho hf
    · exact ⟨.append t o (.ofProduct (.ofFactor f)), ⟨ht, ho, hf⟩, rfl⟩

/-- A factor that begins where an operand is wanted. -/
theorem Parsed.factor {d : Nat} {xs part : List α} (hb : Base role d xs) (hp : Partial role part)
    {f : Tree α .factor} (hf : f.Proper role) :
    Parsed role d (xs ++ part ++ f.tokens) .operator := by
  obtain ⟨t, ht, htokens⟩ := hp.attach hf
  exact ⟨xs, t, hb, ht, by rw [htokens, List.append_assoc]⟩

theorem Parsed.argument_operand {d : Nat} {ys : List α} (h : Parsed role d ys .argument) :
    Parsed role d ys .operand := by
  obtain ⟨e, xs, part, c, o, rfl, hb, hp, hc, ho, rfl⟩ := h
  exact ⟨_, [], .call hb hp hc ho, Or.inl rfl, (List.append_nil _).symm⟩

variable {d e : Nat} {xs ys : List α} {x : α} {r : Role} {want want' : Want}

theorem Parsed.wanted_operand (h : Parsed role d ys .operand) (hr : role x = some r)
    (hnext : Want.next d .operand r = some (e, want')) : Parsed role e (ys ++ [x]) want' := by
  obtain ⟨xs, part, hb, hp, rfl⟩ := h
  cases r with
  | operand =>
    cases hnext
    exact .factor hb hp (f := .operand x) hr
  | callee =>
    cases hnext
    exact ⟨xs, part, x, hb, hp, hr, rfl⟩
  | opening =>
    cases hnext
    exact ⟨_, [], .group hb hp hr, Or.inl rfl, (List.append_nil _).symm⟩
  | _ => cases d <;> cases hnext

theorem Parsed.wanted_list (h : Parsed role d ys .list) (hr : role x = some r)
    (hnext : Want.next d .list r = some (e, want')) : Parsed role e (ys ++ [x]) want' := by
  obtain ⟨xs, part, c, hb, hp, hc, rfl⟩ := h
  cases r with
  | opening =>
    cases hnext
    exact ⟨d, xs, part, c, x, rfl, hb, hp, hc, hr, by simp⟩
  | _ => cases d <;> cases hnext

theorem Parsed.wanted_argument (h : Parsed role d ys .argument) (hr : role x = some r)
    (hnext : Want.next d .argument r = some (e, want')) : Parsed role e (ys ++ [x]) want' := by
  by_cases hclosing : r = .closing
  · obtain ⟨n, xs, part, c, o, rfl, hb, hp, hc, ho, rfl⟩ := h
    subst hclosing
    cases hnext
    have hcall := Parsed.factor hb hp (f := .callNone c o x) ⟨hc, ho, hr⟩
    simpa [Tree.tokens] using hcall
  · refine h.argument_operand.wanted_operand hr ?_
    cases d <;> cases r <;> first | exact hnext | exact absurd rfl hclosing

/-- A parenthesis that closes makes a factor of what stands in it. -/
theorem Parsed.closing {t : Tree α .list} (hb : Base role (d + 1) xs) (ht : t.Proper role)
    (hr : role x = some .closing) : Parsed role d (xs ++ t.tokens ++ [x]) .operator := by
  cases hb with
  | @group _ xs part o hb hp ho =>
    have hgroup := Parsed.factor hb hp (f := .group o t x) ⟨ho, ht, hr⟩
    simpa [Tree.tokens] using hgroup
  | @call _ xs part c o hb hp hc ho =>
    have hcall := Parsed.factor hb hp (f := .call c o t x) ⟨hc, ho, ht, hr⟩
    simpa [Tree.tokens] using hcall

theorem Parsed.wanted_operator (h : Parsed role d ys .operator) (hr : role x = some r)
    (hnext : Want.next d .operator r = some (e, want')) : Parsed role e (ys ++ [x]) want' := by
  obtain ⟨xs, t, hb, ht, rfl⟩ := h
  cases r with
  | closing =>
    cases d with
    | zero => cases hnext
    | succ d =>
      cases hnext
      exact .closing hb ht hr
  | comma =>
    cases d <;> cases hnext <;>
      exact ⟨xs, _, hb, Or.inr ⟨t, x, ht, Or.inr (Or.inr hr), rfl⟩, by simp⟩
  | additive =>
    cases d <;> cases hnext <;>
      exact ⟨xs, _, hb, Or.inr ⟨t, x, ht, Or.inr (Or.inl hr), rfl⟩, by simp⟩
  | multiplicative =>
    cases d <;> cases hnext <;> exact ⟨xs, _, hb, Or.inr ⟨t, x, ht, Or.inl hr, rfl⟩, by simp⟩
  | _ => cases d <;> cases hnext

/-- One token more is parsed. -/
theorem Parsed.step (h : Parsed role d ys want) (hr : role x = some r)
    (hnext : want.next d r = some (e, want')) : Parsed role e (ys ++ [x]) want' := by
  cases want with
  | operand => exact h.wanted_operand hr hnext
  | operator => exact h.wanted_operator hr hnext
  | list => exact h.wanted_list hr hnext
  | argument => exact h.wanted_argument hr hnext

theorem Parsed.follow (h : Parsed role d ys want)
    (hxs : follow role (d, want) xs = some (e, want')) : Parsed role e (ys ++ xs) want' := by
  induction xs generalizing d ys want with
  | nil =>
    cases hxs
    rwa [List.append_nil]
  | cons x xs ih =>
    obtain ⟨r, hr, hxs⟩ := Option.bind_eq_some_iff.mp hxs
    obtain ⟨⟨d', want''⟩, hnext, hxs⟩ := Option.bind_eq_some_iff.mp hxs
    rw [List.append_cons]
    exact ih (h.step hr hnext) hxs

/-- A text that can be followed to its end has a structure. -/
theorem exists_tree (h : follow role (0, .operand) xs = some (0, .operator)) :
    ∃ t : Tree α .list, t.Proper role ∧ t.tokens = xs := by
  have hstart : Parsed role 0 [] .operand := ⟨[], [], .start, Or.inl rfl, rfl⟩
  obtain ⟨base, t, hb, ht, htokens⟩ := hstart.follow h
  cases hb
  exact ⟨t, ht, htokens.symm⟩

end Ttm.Postfix
