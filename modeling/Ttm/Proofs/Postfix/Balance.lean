import Ttm.Proofs.Postfix.Arguments

/-! Which statements are put into postfix order. Their parts are counted and their parentheses
paired; where the parts stand is not asked. -/
namespace Ttm.Postfix

open Lexeme (Kind)

/-- How many operands a lexeme brings, less those that an operator or a comma takes. A call brings
one where its list is empty. -/
def worth (symbols : Symbol.Table) (l : Lexeme) (rest : List Lexeme) : Int :=
  if isCallee symbols l then if opensEmptyList rest then 1 else 0
  else match l.kind with
    | .identifier | .literal => 1
    | .comma => -1
    | kind => if kind.isArithmetic then -1 else 0

/-- The operands of a text that nothing in it takes. -/
def surplus (symbols : Symbol.Table) : List Lexeme → Int
  | [] => 0
  | l :: rest => worth symbols l rest + surplus symbols rest

/-- A statement that is not too long, in which nothing is foreign to expressions, whose parentheses
are paired, and whose operators, commas and calls leave one operand over. -/
structure Counted [Limits] (symbols : Symbol.Table) (inner : List Lexeme)
    (terminator : Lexeme) : Prop where
  fits : inner.length < Limits.maxStatementLength
  parts : ∀ l ∈ inner, isPart l.kind
  paired : Paired inner
  left : surplus symbols (inner ++ [terminator]) = 1

variable {limits : Limits} {symbols : Symbol.Table} {l terminator : Lexeme} {d : Nat} {w : Tally}
  {ls inner rest stack output : List Lexeme}

theorem weigh_of_isPart (symbols : Symbol.Table) (rest : List Lexeme) (w : Tally)
    (h : isPart l.kind) : ∃ w', weigh symbols l rest w = .ok w' ∧
    w'.operands - w'.operators = w.operands - w.operators + worth symbols l rest := by
  have hkind (hk : l.kind ≠ .identifier) : isCallee symbols l = false := by
    simp [isCallee, hk]
  cases hk : l.kind
  case identifier =>
    simp only [weigh, worth, hk]
    split
    · split <;> exact ⟨_, rfl, by simp [Tally.addOperands]; try omega⟩
    · exact ⟨_, rfl, by simp [Tally.addOperands]; omega⟩
  case literal | comma | openParen | closeParen | semicolon =>
    simp only [weigh, worth, hk, hkind (by simp [hk])]
    exact ⟨_, rfl, by simp [Tally.addOperands, Kind.isArithmetic]; try omega⟩
  case plus | minus | star | slash | percent =>
    simp only [weigh, worth, hk, hkind (by simp [hk])]
    exact ⟨_, rfl, by simp [Kind.isArithmetic]; omega⟩
  all_goals
    rw [hk] at h
    cases h

theorem tally_of_isPart (symbols : Symbol.Table) (w : Tally) (h : ∀ l ∈ ls, isPart l.kind) :
    ∃ w', tally symbols ls w = .ok w' ∧
      w'.operands - w'.operators = w.operands - w.operators + surplus symbols ls := by
  induction ls generalizing w with
  | nil => exact ⟨w, rfl, by simp [surplus]⟩
  | cons l ls ih =>
    obtain ⟨hl, hls⟩ := List.forall_mem_cons.mp h
    obtain ⟨w₁, hw₁, hhead⟩ := weigh_of_isPart symbols ls w hl
    obtain ⟨w₂, hw₂, htail⟩ := ih w₁ hls
    refine ⟨w₂, by rw [tally, hw₁]; exact hw₂, ?_⟩
    rw [htail, hhead, surplus]
    omega

/-- A lexeme other than a semicolon is read unless it closes a parenthesis that is not open. -/
theorem exists_shunt_cons (output : List Lexeme) (hl : isTerminator l = false)
    (hd : deeper (stack.countP isOpen) l = some d) :
    ∃ stack' output', Moves l stack output stack' output' ∧
      shunt (l :: rest) stack output = shunt rest stack' output' := by
  cases hk : l.kind
  case semicolon => simp [isTerminator, hk] at hl
  case call | openParen => exact ⟨_, _, .push (by simp [hk]), by simp [shunt, hk]⟩
  case comma => exact ⟨_, _, .comma hk, by simp [shunt, hk]⟩
  case closeParen =>
    have hcount := @countP_dropWhile stack (!isOpen ·) (by simp)
    have hopen := deeper_eq_some.mp hd
    rw [hk, List.count_singleton_self] at hopen
    cases hdrop : stack.dropWhile (!isOpen ·) with
    | nil =>
      rw [hdrop, List.countP_nil] at hcount
      simp at hopen
      omega
    | cons opening below =>
      cases below with
      | nil => exact ⟨_, _, .close hk hdrop (by simp), by simp [shunt, hk, hdrop]⟩
      | cons top bottom =>
        by_cases htop : top.kind = .call
        · exact ⟨_, _, .call hk hdrop htop, by simp [shunt, hk, hdrop, htop]⟩
        · exact ⟨_, _, .close hk hdrop (by simpa using htop), by simp [shunt, hk, hdrop, htop]⟩
  case plus | minus | star | slash | percent =>
    have harithmetic : l.kind.isArithmetic := by simp [hk, Kind.isArithmetic]
    exact ⟨_, _, .operator harithmetic, by simp [shunt, hk, Kind.isArithmetic]⟩
  all_goals
    exact ⟨_, _, .operand (by simp [hk, Kind.isArithmetic]) (by simp [isDropped, hk])
      (by simp [hk]), by simp [shunt, hk, Kind.isArithmetic]⟩

theorem exists_shunt_of_foldlM_deeper (output : List Lexeme) (ht : ∀ l ∈ ls, isTerminator l = false)
    (hk : terminator.kind = .semicolon)
    (hd : ls.foldlM deeper (stack.countP isOpen) = some d) :
    ∃ result, shunt (ls ++ [terminator]) stack output = .ok result := by
  induction ls generalizing stack output with
  | nil => exact ⟨_, by simp [shunt, hk]; rfl⟩
  | cons l ls ih =>
    rw [List.foldlM_cons] at hd
    obtain ⟨c, hc, hd⟩ := Option.bind_eq_some_iff.mp hd
    obtain ⟨hl, hls⟩ := List.forall_mem_cons.mp ht
    obtain ⟨stack', output', hmoves, hshunt⟩ := exists_shunt_cons output hl hc
    cases hc.symm.trans hmoves.countP_isOpen
    rw [List.cons_append, hshunt]
    exact ih output' hls hd

/-- Counting decides what is put into postfix order. -/
theorem exists_ofStatement_iff (ht : isTerminator terminator)
    (hinner : ∀ l ∈ inner, isTerminator l = false) :
    (∃ reordered, ofStatement symbols (inner ++ [terminator]) = .ok reordered) ↔
      Counted symbols inner terminator := by
  have hkind := isTerminator_iff.mp ht
  constructor
  · rintro ⟨reordered, h⟩
    have hpaired := paired_of_ofStatement ht hinner h
    obtain ⟨hlength, ⟨w, htally, -, hone⟩, -⟩ := ofStatement_eq_ok.mp h
    have hparts := isPart_of_tally htally
    obtain ⟨w', htally', hsurplus⟩ := tally_of_isPart symbols {} hparts
    cases htally.symm.trans htally'
    rw [List.length_append, List.length_singleton] at hlength
    refine ⟨hlength, fun l hl => hparts l (List.mem_append_left _ hl), hpaired, ?_⟩
    simp at hsurplus
    omega
  · rintro ⟨hlength, hparts, hpaired, hone⟩
    have hall : ∀ l ∈ inner ++ [terminator], isPart l.kind := by
      refine List.forall_mem_append.mpr ⟨hparts, List.forall_mem_singleton.mpr ?_⟩
      rw [hkind]
      rfl
    obtain ⟨w, htally, hsurplus⟩ := tally_of_isPart symbols {} hall
    obtain ⟨hopened, hclosed⟩ := tally_brackets htally
    have hdepth := foldlM_deeper hpaired
    have hmarked : (inner.map (markCall symbols)).foldlM deeper (([] : List Lexeme).countP isOpen) =
        some 0 := foldlM_deeper_markCall.trans hpaired
    obtain ⟨result, hshunt⟩ :=
      exists_shunt_of_foldlM_deeper [] (not_isTerminator_markCall hinner) hkind hmarked
    refine ⟨result.reverse, ofStatement_eq_ok.mpr ⟨?_, ⟨w, htally, ?_, ?_⟩, ?_⟩⟩
    · rw [List.length_append, List.length_singleton]
      exact hlength
    · simp [hkind] at hopened hclosed
      omega
    · simp at hsurplus
      omega
    · rw [List.map_append, List.map_singleton, markCall_of_ne (by simp [hkind]), hshunt,
        List.reverse_reverse]

end Ttm.Postfix
