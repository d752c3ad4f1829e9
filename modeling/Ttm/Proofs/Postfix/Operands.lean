import Ttm.Proofs.Postfix.Turn

/-! Operands keep their order when statements are put into postfix order. -/
namespace Ttm.Postfix

open Lexeme (Kind)

variable (symbols : Symbol.Table)

/-- A literal, or a name that is not the name of a function. -/
def isOperand (l : Lexeme) : Bool :=
  l.kind == .literal || (l.kind == .identifier && !isCallee symbols l)

def operands (ls : List Lexeme) : List Lexeme := ls.filter (isOperand symbols)

variable {limits : Limits} {settings : ConversionSettings} {symbols} {l terminator : Lexeme}
  {k : Kind} {t : Lexeme.Table} {p q : Place}
  {ls ms inner span stack stack' output output' result reordered : List Lexeme}

theorem isOperand_of_kind (hk : l.kind = k) (hliteral : k ≠ .literal) (hname : k ≠ .identifier) :
    isOperand symbols l = false := by
  simp [isOperand, hk, hliteral, hname]

theorem isOperand_of_isArithmetic (h : l.kind.isArithmetic) : isOperand symbols l = false := by
  cases hk : l.kind <;> first
    | exact isOperand_of_kind hk (by decide) (by decide)
    | simp [hk, Kind.isArithmetic] at h

theorem operands_append :
    operands symbols (ls ++ ms) = operands symbols ls ++ operands symbols ms :=
  List.filter_append ..

theorem operands_reverse : operands symbols ls.reverse = (operands symbols ls).reverse :=
  List.filter_reverse ..

theorem operands_cons_of_not (h : isOperand symbols l = false) :
    operands symbols (l :: ls) = operands symbols ls :=
  List.filter_cons_of_neg (by simp [h])

theorem operands_of_sublist (h : ls.Sublist ms) (hnone : operands symbols ms = []) :
    operands symbols ls = [] :=
  List.sublist_nil.mp (hnone ▸ h.filter _)

/-- Sending out the top of a stack without operands adds none. -/
theorem operands_reverseAux (h : ls.Sublist stack) (hstack : operands symbols stack = []) :
    operands symbols (ls.reverseAux output) = operands symbols output := by
  rw [List.reverseAux_eq, operands_append, operands_reverse, operands_of_sublist h hstack]
  rfl

/-- An operand is put out at once, and nothing else that is put out is one. -/
theorem Moves.operands (h : Moves l stack output stack' output')
    (hstack : operands symbols stack = []) :
    operands symbols stack' = [] ∧
      operands symbols output' = operands symbols [l] ++ operands symbols output := by
  have hread (hl : isOperand symbols l = false) : Postfix.operands symbols [l] = [] :=
    operands_cons_of_not hl
  cases h with
  | push hk =>
    have hl : isOperand symbols l = false := by
      rcases hk with hk | hk <;> exact isOperand_of_kind hk (by decide) (by decide)
    rw [operands_cons_of_not hl, hread hl]
    exact ⟨hstack, rfl⟩
  | comma hk =>
    rw [hread (isOperand_of_kind hk (by decide) (by decide)),
      operands_reverseAux (List.takeWhile_sublist _) hstack]
    exact ⟨operands_of_sublist (List.dropWhile_sublist _) hstack, rfl⟩
  | @close opening _ hk hd hb =>
    have hbelow : stack'.Sublist stack :=
      (List.sublist_cons_self opening stack').trans (hd ▸ List.dropWhile_sublist _)
    rw [hread (isOperand_of_kind hk (by decide) (by decide)),
      operands_reverseAux (List.takeWhile_sublist _) hstack]
    exact ⟨operands_of_sublist hbelow hstack, rfl⟩
  | @call opening callee _ hk hd hc =>
    have hbelow : stack'.Sublist stack :=
      ((List.sublist_cons_self callee stack').trans (List.sublist_cons_self opening _)).trans
        (hd ▸ List.dropWhile_sublist _)
    rw [hread (isOperand_of_kind hk (by decide) (by decide)),
      operands_cons_of_not (isOperand_of_kind hc (by decide) (by decide)),
      operands_reverseAux (List.takeWhile_sublist _) hstack]
    exact ⟨operands_of_sublist hbelow hstack, rfl⟩
  | operator hk =>
    have hl : isOperand symbols l = false := isOperand_of_isArithmetic hk
    rw [operands_cons_of_not hl, hread hl, operands_reverseAux (List.takeWhile_sublist _) hstack]
    exact ⟨operands_of_sublist (List.dropWhile_sublist _) hstack, rfl⟩
  | operand hk hd hc => exact ⟨hstack, @operands_append symbols [l] output⟩

/-- The operands of a statement are put out in the order in which they are read. -/
theorem operands_shunt (ht : terminator.kind = .semicolon)
    (hinner : ∀ l ∈ inner, isTerminator l = false) (hstack : operands symbols stack = [])
    (h : shunt (inner ++ [terminator]) stack output = .ok result) :
    operands symbols result.reverse =
      operands symbols output.reverse ++ operands symbols inner := by
  induction inner generalizing stack output with
  | nil =>
    simp only [List.nil_append, shunt, ht, Except.ok.injEq] at h
    rw [← h, operands_reverse, operands_reverse,
      operands_cons_of_not (isOperand_of_kind ht (by decide) (by decide)),
      operands_reverseAux List.filter_sublist hstack]
    exact (List.append_nil _).symm
  | cons l inner ih =>
    obtain ⟨stack', output', hmoves, h⟩ := exists_moves (hinner l List.mem_cons_self) h
    obtain ⟨hstack', houtput⟩ := hmoves.operands hstack
    have hl : (operands symbols [l]).reverse = operands symbols [l] := by
      by_cases hop : isOperand symbols l <;> simp [operands, hop]
    rw [ih (fun x hx => hinner x (List.mem_cons_of_mem l hx)) hstack' h, operands_reverse, houtput,
      List.reverse_append, hl, ← operands_reverse, List.append_assoc, ← operands_append,
      List.singleton_append]

theorem isOperand_markCall : isOperand symbols (markCall symbols l) = isOperand symbols l := by
  by_cases hc : isCallee symbols l
  · have hl : isOperand symbols l = false := by simp [isOperand, hc, kind_of_isCallee hc]
    have hk : (markCall symbols l).kind = .call := by rw [kind_markCall, if_pos hc]
    rw [hl, isOperand_of_kind hk (by decide) (by decide)]
  · rw [markCall, if_neg hc]

theorem operands_markCall : operands symbols (ls.map (markCall symbols)) = operands symbols ls := by
  induction ls with
  | nil => rfl
  | cons l ls ih =>
    by_cases hl : isOperand symbols l
    · have hc : ¬ isCallee symbols l := fun hc => by
        simp [isOperand, hc, kind_of_isCallee hc] at hl
      have hmark : markCall symbols l = l := if_neg hc
      simp only [operands] at ih
      simp [operands, hmark, hl, ih]
    · rw [List.map_cons, operands_cons_of_not (by rw [isOperand_markCall]; simpa using hl), ih,
        operands_cons_of_not (by simpa using hl)]

/-- A statement in postfix order has the operands that were written, in their order. -/
theorem operands_ofStatement (ht : isTerminator terminator)
    (hinner : ∀ l ∈ inner, isTerminator l = false)
    (h : ofStatement symbols (inner ++ [terminator]) = .ok reordered) :
    operands symbols reordered = operands symbols (inner ++ [terminator]) := by
  obtain ⟨-, -, hshunt⟩ := ofStatement_eq_ok.mp h
  have hkind := isTerminator_iff.mp ht
  rw [List.map_append, List.map_singleton, markCall_of_ne (by simp [hkind])] at hshunt
  have hoperands : operands symbols reordered.reverse.reverse =
      operands symbols ([] : List Lexeme).reverse ++
        operands symbols (inner.map (markCall symbols)) :=
    operands_shunt hkind (not_isTerminator_markCall hinner) rfl hshunt
  rw [List.reverse_reverse, operands_markCall] at hoperands
  rw [hoperands, operands_append,
    operands_cons_of_not (isOperand_of_kind hkind (by decide) (by decide))]
  exact (List.append_nil _).symm

theorem operands_filled :
    operands symbols (filled span reordered) = operands symbols reordered := by
  have hpadding (n : Nat) : operands symbols (List.replicate n Lexeme.padding) = [] := by
    exact List.filter_replicate_of_neg (by simp [isOperand, Lexeme.padding])
  rw [filled, operands_append, hpadding, List.append_nil]

/-- No turn of a pass adds, drops or moves an operand among the others. -/
theorem Turn.operands (h : Turn symbols p q) :
    operands symbols q.table.toList = operands symbols p.table.toList := by
  cases h with
  | skip | keep => rfl
  | @convert l start filling table hl hp hs hc =>
    obtain ⟨span, reordered, hspan, hreordered, rfl, rfl⟩ := convertAt_eq_ok.mp hc
    have hlength := length_filled (length_reordered hspan hreordered)
    obtain ⟨inner, terminator, rest, rfl, ht, hinner, hdrop⟩ := statementAt?_eq_some.mp hspan
    have hrest : p.table.toList.drop (start + (inner ++ [terminator]).length) = rest := by
      rw [← List.drop_drop, hdrop, List.drop_left]
    calc Postfix.operands symbols (p.table.fill start _).toList
        = Postfix.operands symbols (p.table.toList.take start) ++
            Postfix.operands symbols (inner ++ [terminator]) ++ Postfix.operands symbols rest := by
          rw [Lexeme.Table.toList_fill, operands_append, operands_append, operands_filled, hlength,
            hrest, operands_ofStatement ht hinner hreordered]
      _ = Postfix.operands symbols p.table.toList := by
          rw [← operands_append, ← operands_append, List.append_assoc, ← hdrop,
            List.take_append_drop]

/-- A pass over a table leaves the operands in their order, also when it fails. -/
theorem operands_convertAll :
    operands symbols (convertAll symbols settings t).lexemes.toList =
      operands symbols t.toList := by
  obtain ⟨last, r, hrun, -, htable, -⟩ := @convertAll_turns limits settings symbols t
  rw [← htable]
  clear htable
  induction hrun with
  | refl => rfl
  | tail _ hturn ih => exact hturn.operands.trans ih

/-- Literals are operands. -/
theorem literals_convertAll :
    (convertAll symbols settings t).lexemes.toList.filter (·.kind == .literal) =
      t.toList.filter (·.kind == .literal) := by
  have hfilter (ls : List Lexeme) : (operands symbols ls).filter (·.kind == .literal) =
      ls.filter (·.kind == .literal) := by
    rw [operands, List.filter_filter]
    refine List.filter_congr fun l _ => ?_
    by_cases hk : l.kind = .literal <;> simp [isOperand, hk]
  rw [← hfilter, operands_convertAll, hfilter]

end Ttm.Postfix
