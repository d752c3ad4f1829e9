import Ttm.Proofs.Postfix.Arguments
import Ttm.Proofs.Postfix.Operands

/-!
How far an operand gets to the front of its statement in postfix order. It is put out as soon as it
is read, and of what was read before it, all but operands waits or is dropped.
-/
namespace Ttm.Postfix

open Lexeme (Kind)

/-- Lexemes that are put out as soon as they are read. -/
def isSent (l : Lexeme) : Bool := !l.kind.isArithmetic && !isDropped l && l.kind != .call

/-- The first lexeme of a list that refers to symbol `i`. -/
def firstReference? (ls : List Lexeme) (i : Nat) : Option Nat := ls.findIdx? (·.symbol == some i)

/-- What is known of stack and output when `done` is read: there is nothing but what was read, and
as many lexemes as were read are put out only if all of them were sent at once. -/
structure HasRead (done stack output : List Lexeme) : Prop where
  from_done : ∀ m ∈ output ++ waiting stack, m ∈ done
  length_le : output.length + stack.length ≤ done.length
  length_eq : output.length = done.length ↔ ∀ m ∈ done, isSent m

variable {limits : Limits} {symbols : Symbol.Table} {l m : Lexeme} {i n : Nat} {p : Lexeme → Bool}
  {before after done stack stack' output output' rest result reordered : List Lexeme}

theorem firstReference?_eq_some : firstReference? before i = some n ↔
    (∃ l, before[n]? = some l ∧ l.symbol = some i) ∧
      ∀ m l, m < n → before[m]? = some l → l.symbol ≠ some i := by
  rw [firstReference?, List.findIdx?_eq_some_iff_getElem]
  simp only [beq_iff_eq, List.getElem?_eq_some_iff]
  constructor
  · rintro ⟨hn, hi, hnone⟩
    refine ⟨⟨_, ⟨hn, rfl⟩, hi⟩, ?_⟩
    rintro m l hm ⟨-, rfl⟩
    exact hnone m hm
  · rintro ⟨⟨l, ⟨hn, rfl⟩, hi⟩, hnone⟩
    exact ⟨hn, hi, fun m hm => hnone m _ hm ⟨Nat.lt_trans hm hn, rfl⟩⟩

theorem length_reverseAux_takeWhile : ((stack.takeWhile p).reverseAux output).length +
    (stack.dropWhile p).length = output.length + stack.length := by
  have hsplit := congrArg List.length (@List.takeWhile_append_dropWhile _ p stack)
  rw [List.length_append] at hsplit
  rw [List.reverseAux_eq, List.length_append, List.length_reverse]
  omega

/-- What is not sent at once does not get into the output by being read. -/
theorem Moves.length (h : Moves l stack output stack' output') :
    isSent l ∧ stack' = stack ∧ output' = l :: output ∨
      isSent l = false ∧ output'.length + stack'.length ≤ output.length + stack.length + 1 ∧
        output'.length ≤ output.length + stack.length := by
  have hsplit := @length_reverseAux_takeWhile (!isOpen ·) stack output
  cases h with
  | push hk =>
    refine Or.inr ⟨?_, by rw [List.length_cons]; omega, Nat.le_add_right _ _⟩
    rcases hk with hk | hk <;> simp [isSent, isDropped, hk]
  | comma hk => exact Or.inr ⟨by simp [isSent, isDropped, hk], by omega, by omega⟩
  | close hk hd hb =>
    rw [hd, List.length_cons] at hsplit
    exact Or.inr ⟨by simp [isSent, isDropped, hk], by omega, by omega⟩
  | call hk hd hc =>
    rw [hd, List.length_cons, List.length_cons] at hsplit
    refine Or.inr ⟨by simp [isSent, isDropped, hk], ?_, ?_⟩ <;> rw [List.length_cons] <;> omega
  | operator hk =>
    have hsplit := @length_reverseAux_takeWhile (appliesBefore l.kind) stack output
    refine Or.inr ⟨by simp [isSent, hk], ?_, by omega⟩
    rw [List.length_cons]
    omega
  | operand hk hd hc => exact Or.inl ⟨by simp [isSent, hk, hd, hc], rfl, rfl⟩

/-- Nothing is put out or waits but what is read. -/
theorem Moves.mem (h : Moves l stack output stack' output') (hm : m ∈ output' ++ waiting stack') :
    m ∈ output ++ waiting stack ∨ m = l := by
  have hcount := h.count m
  rw [← List.count_append, ← List.count_append, ← List.count_append] at hcount
  have hread := List.count_pos_iff.mp (hcount ▸ List.count_pos_iff.mpr hm)
  refine (List.mem_append.mp hread).imp_right fun hl => ?_
  exact List.mem_singleton.mp (List.mem_filter.mp hl).1

theorem hasRead_nil : HasRead [] [] [] := ⟨by simp [waiting], Nat.le_refl 0, by simp⟩

theorem HasRead.step (h : HasRead done stack output) (hl : Moves l stack output stack' output') :
    HasRead (done ++ [l]) stack' output' := by
  obtain ⟨hmem, hle, heq⟩ := h
  refine ⟨fun m hm => ?_, ?_, ?_⟩
  · rw [List.mem_append, List.mem_singleton]
    exact (hl.mem hm).imp_left (hmem m)
  · rw [List.length_append, List.length_singleton]
    rcases hl.length with ⟨-, rfl, rfl⟩ | ⟨-, hlength, -⟩
    · rw [List.length_cons]
      omega
    · omega
  · rw [List.length_append, List.length_singleton, List.forall_mem_append]
    rcases hl.length with ⟨hsent, rfl, rfl⟩ | ⟨hsent, -, hlength⟩
    · rw [List.length_cons, Nat.add_right_cancel_iff, heq]
      simp [hsent]
    · constructor
      · intro hlast
        omega
      · intro hall
        rw [hall.2 l (List.mem_singleton_self l)] at hsent
        cases hsent

/-- Reading goes on behind the beginning of a statement, of which no more is put out than there is
to it. -/
theorem exists_hasRead (ht : ∀ l ∈ before, isTerminator l = false)
    (hdone : HasRead done stack output) (h : shunt (before ++ rest) stack output = .ok result) :
    ∃ stack' output', HasRead (done ++ before) stack' output' ∧
      shunt rest stack' output' = .ok result := by
  induction before generalizing done stack output with
  | nil => exact ⟨stack, output, by rwa [List.append_nil], h⟩
  | cons l before ih =>
    obtain ⟨stack', output', hmoves, h⟩ := exists_moves (ht l List.mem_cons_self) h
    rw [List.append_cons]
    exact ih (fun m hm => ht m (List.mem_cons_of_mem l hm)) (hdone.step hmoves) h

/-- The first reference to a symbol stands in postfix order behind what was put out before it. -/
theorem firstReference?_of_shunt (ht : ∀ l ∈ before, isTerminator l = false)
    (hl : isTerminator l = false) (hsent : isSent l) (hi : l.symbol = some i)
    (hnone : ∀ m ∈ before, m.symbol ≠ some i)
    (h : shunt (before ++ l :: after) [] [] = .ok reordered.reverse) :
    ∃ n ≤ before.length, firstReference? reordered i = some n ∧
      (n = before.length ↔ ∀ m ∈ before, isSent m) := by
  obtain ⟨stack, output, hread, h⟩ := exists_hasRead ht hasRead_nil h
  obtain ⟨stack', output', hmoves, h⟩ := exists_moves hl h
  obtain ⟨-, rfl, rfl⟩ : isSent l ∧ stack' = stack ∧ output' = l :: output :=
    hmoves.length.resolve_right fun hkept => by simp [hsent] at hkept
  obtain ⟨more, hmore⟩ := shunt_grows h
  obtain rfl : reordered = output.reverse ++ l :: more.reverse := by
    rw [← List.reverse_reverse reordered, hmore]
    simp
  rw [List.nil_append] at hread
  have hlength := hread.length_le
  refine ⟨output.length, by omega, ?_, hread.length_eq⟩
  have hfront : output.reverse.findIdx? (·.symbol == some i) = none := by
    rw [List.findIdx?_eq_none_iff]
    intro m hm
    simpa using hnone m (hread.from_done m (List.mem_append_left _ (List.mem_reverse.mp hm)))
  rw [firstReference?, List.findIdx?_append, hfront]
  simp [hi, List.findIdx?_cons]

theorem isSent_markCall (hpart : isPart l.kind) (ht : isTerminator l = false) :
    isSent (markCall symbols l) = isOperand symbols l := by
  by_cases hc : isCallee symbols l
  · have hk : (markCall symbols l).kind = .call := by rw [kind_markCall, if_pos hc]
    simp [isSent, isOperand, hk, hc, kind_of_isCallee hc]
  · have hc : isCallee symbols l = false := by simpa using hc
    rw [markCall, hc]
    cases hk : l.kind <;> simp_all [isPart, isTerminator, isSent, isOperand, isDropped,
      Kind.isArithmetic]

theorem isTerminator_of_isOperand (h : isOperand symbols l) : isTerminator l = false := by
  cases hk : l.kind <;> simp_all [isOperand, isTerminator]

/-- The operand that refers to a symbol first is the first to do so in postfix order. It stays at
its place just when there are only operands in front of it. -/
theorem firstReference?_of_operand (ht : ∀ m ∈ before, isTerminator m = false)
    (hl : isOperand symbols l) (hi : l.symbol = some i) (hnone : ∀ m ∈ before, m.symbol ≠ some i)
    (h : ofStatement symbols (before ++ l :: after) = .ok reordered) :
    ∃ n ≤ before.length, firstReference? reordered i = some n ∧
      (n = before.length ↔ ∀ m ∈ before, isOperand symbols m) := by
  obtain ⟨-, ⟨w, htally, -⟩, hshunt⟩ := ofStatement_eq_ok.mp h
  have hpart := isPart_of_tally htally
  have hlTerminator : isTerminator l = false := isTerminator_of_isOperand hl
  have hlSent : isSent (markCall symbols l) :=
    (isSent_markCall (hpart l (by simp)) hlTerminator).trans hl
  have hbefore : ∀ m ∈ before.map (markCall symbols), m.symbol ≠ some i := by
    simpa [markCall_symbol] using hnone
  rw [List.map_append, List.map_cons] at hshunt
  obtain ⟨n, hn, hfirst, heq⟩ := firstReference?_of_shunt (not_isTerminator_markCall ht)
    (isTerminator_markCall.trans hlTerminator) hlSent (markCall_symbol.trans hi) hbefore hshunt
  rw [List.length_map] at hn heq
  refine ⟨n, hn, hfirst, heq.trans ?_⟩
  rw [List.forall_mem_map]
  exact forall₂_congr fun m hm => by
    rw [isSent_markCall (hpart m (List.mem_append_left _ hm)) (ht m hm)]

end Ttm.Postfix
