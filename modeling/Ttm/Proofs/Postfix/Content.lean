import Mathlib.Data.List.TakeWhile
import Ttm.Proofs.Postfix.Tally

/-! What postfix order keeps of a statement: all but its parentheses and commas. -/
namespace Ttm.Postfix

open Lexeme (Kind)

/-- Lexemes that postfix order does without. -/
def isDropped (l : Lexeme) : Bool :=
  l.kind == .openParen || l.kind == .closeParen || l.kind == .comma

variable {limits : Limits} {symbols : Symbol.Table} {l terminator : Lexeme}
  {ls inner stack output span rest result reordered : List Lexeme} {w : Tally}

theorem splitStatement_eq_some : splitStatement ls = some (span, rest) ↔
    ∃ inner terminator, span = inner ++ [terminator] ∧ isTerminator terminator ∧
      (∀ l ∈ inner, isTerminator l = false) ∧ ls = span ++ rest := by
  constructor
  · intro h
    have happend := append_of_splitStatement h
    unfold splitStatement at h
    split at h
    · cases h
    · next terminator tail hdrop =>
      cases h
      refine ⟨_, terminator, rfl, ?_, fun l hl => ?_, happend.symm⟩
      · have hhead := List.head?_dropWhile_not (!isTerminator ·) ls
        rw [hdrop] at hhead
        simpa using hhead
      · simpa using List.mem_takeWhile_imp hl
  · rintro ⟨inner, terminator, rfl, hterminator, hinner, rfl⟩
    have hdrop : (inner ++ [terminator] ++ rest).dropWhile (!isTerminator ·) =
        terminator :: rest := by
      rw [List.append_assoc, List.dropWhile_append_of_pos fun l hl => by simp [hinner l hl]]
      exact List.dropWhile_cons_of_neg (by simp [hterminator])
    have htake : (inner ++ [terminator] ++ rest).takeWhile (!isTerminator ·) = inner := by
      rw [List.append_assoc, List.takeWhile_append_of_pos fun l hl => by simp [hinner l hl],
        List.singleton_append, List.takeWhile_cons_of_neg (by simp [hterminator]), List.append_nil]
    rw [splitStatement, hdrop, htake]

/-- What reading a lexeme, other than a semicolon, does to the stack and to the output. -/
inductive Moves (l : Lexeme) (stack output : List Lexeme) : List Lexeme → List Lexeme → Prop
  | push (hk : l.kind = .call ∨ l.kind = .openParen) : Moves l stack output (l :: stack) output
  | comma (hk : l.kind = .comma) :
    Moves l stack output (stack.dropWhile (!isOpen ·))
      ((stack.takeWhile (!isOpen ·)).reverseAux output)
  | close {opening : Lexeme} {below : List Lexeme} (hk : l.kind = .closeParen)
    (hd : stack.dropWhile (!isOpen ·) = opening :: below)
    (hb : ∀ top ∈ below.head?, top.kind ≠ .call) :
    Moves l stack output below ((stack.takeWhile (!isOpen ·)).reverseAux output)
  | call {opening callee : Lexeme} {below : List Lexeme} (hk : l.kind = .closeParen)
    (hd : stack.dropWhile (!isOpen ·) = opening :: callee :: below) (hc : callee.kind = .call) :
    Moves l stack output below (callee :: (stack.takeWhile (!isOpen ·)).reverseAux output)
  | operator (hk : l.kind.isArithmetic) :
    Moves l stack output (l :: stack.dropWhile (appliesBefore l.kind))
      ((stack.takeWhile (appliesBefore l.kind)).reverseAux output)
  | operand (hk : l.kind.isArithmetic = false) (hd : isDropped l = false) (hc : l.kind ≠ .call) :
    Moves l stack output stack (l :: output)

theorem exists_moves (hl : isTerminator l = false)
    (h : shunt (l :: rest) stack output = .ok result) :
    ∃ stack' output', Moves l stack output stack' output' ∧
      shunt rest stack' output' = .ok result := by
  cases hk : l.kind
  case semicolon => simp [isTerminator, hk] at hl
  case call | openParen =>
    simp only [shunt, hk] at h
    exact ⟨_, _, .push (by simp [hk]), h⟩
  case comma =>
    simp only [shunt, hk] at h
    exact ⟨_, _, .comma hk, h⟩
  case closeParen =>
    simp only [shunt, hk] at h
    split at h
    · cases h
    · next opening below hd =>
      cases below with
      | nil => exact ⟨_, _, .close hk hd (by simp), h⟩
      | cons top bottom =>
        by_cases htop : top.kind = .call
        · simp only [htop, if_true] at h
          exact ⟨_, _, .call hk hd htop, h⟩
        · simp only [htop, if_false] at h
          exact ⟨_, _, .close hk hd (by simpa using htop), h⟩
  case plus | minus | star | slash | percent =>
    simp only [shunt, hk, Kind.isArithmetic, if_true] at h
    exact ⟨_, _, .operator (by simp [hk, Kind.isArithmetic]), by rw [hk]; exact h⟩
  all_goals
    simp only [shunt, hk, Kind.isArithmetic, Bool.false_eq_true, if_false] at h
    exact ⟨_, _, .operand (by simp [hk, Kind.isArithmetic]) (by simp [isDropped, hk])
      (by simp [hk]), h⟩

/-- Operators and calls that wait on a stack. -/
def waiting (stack : List Lexeme) : List Lexeme := stack.filter (!isOpen ·)

theorem waiting_cons_open (h : isOpen l) : waiting (l :: stack) = waiting stack :=
  List.filter_cons_of_neg (by simp [h])

theorem waiting_cons (h : isOpen l = false) : waiting (l :: stack) = l :: waiting stack :=
  List.filter_cons_of_pos (by simp [h])

/-- What is sent out off the top of a stack does not wait any more. -/
theorem count_waiting {p : Lexeme → Bool} (hp : ∀ l, p l → isOpen l = false) (x : Lexeme) :
    ((stack.takeWhile p).reverseAux output).count x + (waiting (stack.dropWhile p)).count x =
      output.count x + (waiting stack).count x := by
  have htake : waiting (stack.takeWhile p) = stack.takeWhile p :=
    List.filter_eq_self.mpr fun l hl => by simp [hp l (List.mem_takeWhile_imp hl)]
  have hsplit : waiting stack = stack.takeWhile p ++ waiting (stack.dropWhile p) := by
    calc waiting stack
        = waiting (stack.takeWhile p ++ stack.dropWhile p) := by
          rw [List.takeWhile_append_dropWhile]
      _ = waiting (stack.takeWhile p) ++ waiting (stack.dropWhile p) := List.filter_append ..
      _ = stack.takeWhile p ++ waiting (stack.dropWhile p) := by rw [htake]
  rw [hsplit, List.reverseAux_eq, List.count_append, List.count_append, List.count_reverse]
  omega

theorem isOpen_of_appliesBefore {k : Kind} (h : appliesBefore k l) : isOpen l = false := by
  simp only [appliesBefore, Bool.and_eq_true] at h
  cases hopen : isOpen l with
  | false => rfl
  | true =>
    have hk : l.kind = .openParen := by simpa [isOpen] using hopen
    simp [hk, Kind.isArithmetic] at h

theorem isDropped_of_isArithmetic (h : l.kind.isArithmetic) : isDropped l = false := by
  cases hk : l.kind <;> simp_all [isDropped, Kind.isArithmetic]

/-- What was put out or waits is still there, and the lexeme that was read comes to it. -/
theorem Moves.count {stack' output' : List Lexeme} (h : Moves l stack output stack' output')
    (x : Lexeme) : output'.count x + (waiting stack').count x =
      output.count x + (waiting stack).count x + ([l].filter (!isDropped ·)).count x := by
  have hsent := @count_waiting stack output (!isOpen ·) (by simp) x
  have hdropped (hd : isDropped l) : ([l].filter (!isDropped ·)).count x = 0 := by simp [hd]
  have hkept (hd : isDropped l = false) : ([l].filter (!isDropped ·)).count x = [l].count x := by
    simp [hd]
  cases h with
  | push hk =>
    rcases hk with hk | hk
    · rw [waiting_cons (by simp [isOpen, hk]), hkept (by simp [isDropped, hk]), List.count_cons,
        List.count_singleton]
      omega
    · rw [waiting_cons_open (by simp [isOpen, hk]), hdropped (by simp [isDropped, hk])]
      omega
  | comma hk =>
    rw [hdropped (by simp [isDropped, hk])]
    omega
  | @close opening below hk hd hb =>
    have hopen : isOpen opening := by
      have hhead := List.head?_dropWhile_not (!isOpen ·) stack
      simpa [hd] using hhead
    rw [hd, waiting_cons_open hopen] at hsent
    rw [hdropped (by simp [isDropped, hk])]
    omega
  | @call opening callee below hk hd hc =>
    have hopen : isOpen opening := by
      have hhead := List.head?_dropWhile_not (!isOpen ·) stack
      simpa [hd] using hhead
    rw [hd, waiting_cons_open hopen, waiting_cons (by simp [isOpen, hc]), List.count_cons] at hsent
    rw [hdropped (by simp [isDropped, hk]), List.count_cons]
    omega
  | operator hk =>
    have hsent := @count_waiting stack output (appliesBefore l.kind)
      (fun _ => isOpen_of_appliesBefore) x
    have hd := isDropped_of_isArithmetic hk
    have hopen : isOpen l = false := by
      simp only [isDropped, Bool.or_eq_false_iff] at hd
      exact hd.1.1
    rw [waiting_cons hopen, hkept hd, List.count_cons, List.count_singleton]
    omega
  | operand hk hd hc =>
    rw [hkept hd, List.count_cons, List.count_singleton]
    omega

/-- Nothing that is read gets lost, and the semicolon comes last. -/
theorem count_shunt (ht : terminator.kind = .semicolon)
    (hinner : ∀ l ∈ inner, isTerminator l = false)
    (h : shunt (inner ++ [terminator]) stack output = .ok result) :
    ∃ more, result = terminator :: more ∧ ∀ x, more.count x =
      output.count x + (waiting stack).count x + (inner.filter (!isDropped ·)).count x := by
  induction inner generalizing stack output with
  | nil =>
    simp only [List.nil_append, shunt, ht, Except.ok.injEq] at h
    refine ⟨_, h.symm, fun x => ?_⟩
    rw [List.reverseAux_eq, List.count_append, List.count_reverse]
    simp [waiting, Nat.add_comm]
  | cons l inner ih =>
    obtain ⟨stack', output', hmoves, h⟩ := exists_moves (hinner l List.mem_cons_self) h
    obtain ⟨more, rfl, hmore⟩ := ih (fun x hx => hinner x (List.mem_cons_of_mem l hx)) h
    refine ⟨more, rfl, fun x => ?_⟩
    have hread := hmoves.count x
    rw [hmore x, ← List.singleton_append, List.filter_append, List.count_append]
    omega

theorem markCall_of_ne (h : l.kind ≠ .identifier) : markCall symbols l = l := by
  simp [markCall, isCallee, h]

theorem kind_markCall : (markCall symbols l).kind =
    if isCallee symbols l then .call else l.kind := by
  unfold markCall
  split <;> rfl

theorem markCall_line : (markCall symbols l).line = l.line := by
  unfold markCall
  split <;> rfl

theorem markCall_symbol : (markCall symbols l).symbol = l.symbol := by
  unfold markCall
  split <;> rfl

theorem isTerminator_markCall : isTerminator (markCall symbols l) = isTerminator l := by
  unfold markCall isTerminator
  split
  · next hc => simp [kind_of_isCallee hc]
  · rfl

theorem not_isTerminator_markCall (h : ∀ l ∈ ls, isTerminator l = false) :
    ∀ l ∈ ls.map (markCall symbols), isTerminator l = false := by
  intro l hl
  obtain ⟨x, hx, rfl⟩ := List.mem_map.mp hl
  rw [isTerminator_markCall, h x hx]

/-- The lexemes of a text that postfix order keeps, calls marked. -/
def kept (symbols : Symbol.Table) (ls : List Lexeme) : List Lexeme :=
  (ls.map (markCall symbols)).filter (!isDropped ·)

/-- A statement in postfix order: the lexemes that it keeps, and its semicolon. -/
theorem perm_of_ofStatement (ht : isTerminator terminator)
    (hinner : ∀ l ∈ inner, isTerminator l = false)
    (h : ofStatement symbols (inner ++ [terminator]) = .ok reordered) :
    ∃ body, reordered = body ++ [terminator] ∧ body.Perm (kept symbols inner) := by
  obtain ⟨-, -, hshunt⟩ := ofStatement_eq_ok.mp h
  have hkind := isTerminator_iff.mp ht
  rw [List.map_append, List.map_singleton, markCall_of_ne (by simp [hkind])] at hshunt
  obtain ⟨more, hreverse, hcount⟩ := count_shunt hkind (not_isTerminator_markCall hinner) hshunt
  refine ⟨more.reverse, ?_, ?_⟩
  · rw [← List.reverse_cons, ← hreverse, List.reverse_reverse]
  · refine List.perm_iff_count.mpr fun x => ?_
    have hx := hcount x
    simpa [waiting, kept] using hx

theorem length_of_ofStatement (hsplit : splitStatement ls = some (span, rest))
    (h : ofStatement symbols span = .ok reordered) : reordered.length ≤ span.length := by
  obtain ⟨inner, terminator, rfl, ht, hinner, -⟩ := splitStatement_eq_some.mp hsplit
  obtain ⟨body, rfl, hperm⟩ := perm_of_ofStatement ht hinner h
  have hkept : (kept symbols inner).length ≤ inner.length :=
    (List.length_filter_le _ _).trans_eq (List.length_map _)
  rw [List.length_append, List.length_append, hperm.length_eq]
  omega

/-- Lexemes that stand in postfix order in front of its semicolon. -/
structure Clean (symbols : Symbol.Table) (l : Lexeme) : Prop where
  isDropped : isDropped l = false
  isComparison : l.kind.isComparison = false
  isCallee : isCallee symbols l = false
  isTerminator : isTerminator l = false
  isPadding : l.isPadding = false

theorem clean_markCall (hpart : isPart l.kind) (hkept : isDropped (markCall symbols l) = false)
    (ht : isTerminator l = false) : Clean symbols (markCall symbols l) := by
  rw [← @isTerminator_markCall symbols l] at ht
  by_cases hc : isCallee symbols l
  · have hk : (markCall symbols l).kind = .call := by rw [kind_markCall, if_pos hc]
    refine ⟨hkept, ?_, ?_, ht, ?_⟩ <;>
      simp [Postfix.isCallee, Lexeme.isPadding, Kind.isComparison, hk]
  · rw [markCall, if_neg hc] at hkept ht ⊢
    refine ⟨hkept, ?_, by simpa using hc, ht, ?_⟩
    · cases hk : l.kind <;> simp_all [isPart, Kind.isArithmetic, Kind.isComparison]
    · cases hk : l.kind <;> simp_all [isPart, Kind.isArithmetic, Lexeme.isPadding]

theorem clean_of_ofStatement (ht : isTerminator terminator)
    (hinner : ∀ l ∈ inner, isTerminator l = false)
    (h : ofStatement symbols (inner ++ [terminator]) = .ok reordered) :
    ∃ body, reordered = body ++ [terminator] ∧ ∀ l ∈ body, Clean symbols l := by
  obtain ⟨body, rfl, hperm⟩ := perm_of_ofStatement ht hinner h
  obtain ⟨-, ⟨w, htally, -⟩, -⟩ := ofStatement_eq_ok.mp h
  refine ⟨body, rfl, fun l hl => ?_⟩
  obtain ⟨hl, hkept⟩ := List.mem_filter.mp (hperm.mem_iff.mp hl)
  obtain ⟨x, hx, rfl⟩ := List.mem_map.mp hl
  have hpart := isPart_of_tally htally x (List.mem_append_left _ hx)
  exact clean_markCall hpart (by simpa using hkept) (hinner x hx)

end Ttm.Postfix
