import Ttm.Proofs.Postfix.Content
import Ttm.Proofs.Postfix.Shunt

/-! Where postfix order puts a call: right behind its arguments. -/
namespace Ttm.Postfix

open Lexeme (Kind)

/-- How many parentheses are open behind a lexeme, if `d` are open in front of it. -/
def deeper (d : Nat) (l : Lexeme) : Option Nat :=
  match l.kind, d with
  | .openParen, d => some (d + 1)
  | .closeParen, 0 => none
  | .closeParen, d + 1 => some d
  | _, d => some d

/-- Each closing parenthesis has an opening one in front of it, and none is left open. -/
def Paired (ls : List Lexeme) : Prop := ls.foldlM deeper 0 = some 0

variable {limits : Limits} {symbols : Symbol.Table} {l opening closing callee terminator : Lexeme}
  {d e : Nat}
  {ls args post pre inner rest stack stack' base below w output output' result reordered :
    List Lexeme} {p : Lexeme → Bool}

theorem deeper_eq_some : deeper d l = some e ↔
    e + [l.kind].count .closeParen = d + [l.kind].count .openParen := by
  unfold deeper
  cases l.kind
  case closeParen => cases d <;> simp [eq_comm]
  all_goals simp [eq_comm]

theorem foldlM_deeper (h : ls.foldlM deeper d = some e) :
    e + (ls.map (·.kind)).count .closeParen = d + (ls.map (·.kind)).count .openParen := by
  induction ls generalizing d with
  | nil =>
    cases h
    rfl
  | cons l ls ih =>
    rw [List.foldlM_cons] at h
    obtain ⟨c, hc, h⟩ := Option.bind_eq_some_iff.mp h
    have hhead := deeper_eq_some.mp hc
    have htail := ih h
    rw [List.map_cons, ← List.singleton_append, List.count_append, List.count_append]
    omega

/-- A parenthesis that is open in front of a text is closed within it, if none is open behind it. -/
theorem exists_closing (h : ls.foldlM deeper (d + 1) = some 0) (hle : e ≤ d) :
    ∃ args closing post, ls = args ++ closing :: post ∧ closing.kind = .closeParen ∧
      args.foldlM deeper e = some 0 := by
  induction ls generalizing d e with
  | nil => cases h
  | cons l ls ih =>
    rw [List.foldlM_cons] at h
    obtain ⟨c, hc, h⟩ := Option.bind_eq_some_iff.mp h
    have hcount := deeper_eq_some.mp hc
    by_cases hclose : l.kind = .closeParen ∧ e = 0
    · obtain ⟨hk, rfl⟩ := hclose
      exact ⟨[], l, ls, rfl, hk, rfl⟩
    · have hcovered : [l.kind].count .closeParen ≤ e := by
        by_cases hk : l.kind = .closeParen
        · have hpos : e ≠ 0 := fun he => hclose ⟨hk, he⟩
          rw [hk, List.count_singleton_self]
          omega
        · simp [hk]
      obtain ⟨e', he'⟩ : ∃ e', deeper e l = some e' :=
        ⟨e + [l.kind].count .openParen - [l.kind].count .closeParen,
          deeper_eq_some.mpr (by omega)⟩
      have hinner := deeper_eq_some.mp he'
      obtain ⟨c, rfl⟩ : ∃ c', c = c' + 1 := ⟨c - 1, by omega⟩
      obtain ⟨args, closing, post, rfl, hk, hargs⟩ := ih h (e := e') (by omega)
      refine ⟨l :: args, closing, post, rfl, hk, ?_⟩
      rw [List.foldlM_cons, he']
      exact hargs

theorem takeWhile_append_stop (hp : p opening = false) :
    (w ++ opening :: below).takeWhile p = w.takeWhile p ∧
      (w ++ opening :: below).dropWhile p = w.dropWhile p ++ opening :: below := by
  induction w with
  | nil => simp [hp]
  | cons l w ih =>
    by_cases hl : p l
    · simp [hl, ih]
    · simp [hl]

/-- Where no open parenthesis is taken off a stack, as many are left. -/
theorem countP_dropWhile (hp : ∀ l, p l → isOpen l = false) :
    (stack.dropWhile p).countP isOpen = stack.countP isOpen := by
  have htake : (stack.takeWhile p).countP isOpen = 0 :=
    List.countP_eq_zero.mpr fun l hl => by simp [hp l (List.mem_takeWhile_imp hl)]
  have happend := congrArg (List.countP isOpen) (@List.takeWhile_append_dropWhile _ p stack)
  rw [List.countP_append] at happend
  omega

/-- The stack holds the parentheses that are open. -/
theorem Moves.countP_isOpen (h : Moves l stack output stack' output') :
    deeper (stack.countP isOpen) l = some (stack'.countP isOpen) := by
  rw [deeper_eq_some]
  have hdrop := @countP_dropWhile stack (!isOpen ·) (by simp)
  cases h with
  | push hk =>
    rcases hk with hk | hk <;> simp [isOpen, hk]
  | comma hk =>
    rw [hdrop]
    simp [hk]
  | @close opening below hk hd hb =>
    have hopen := List.head?_dropWhile_not (!isOpen ·) stack
    rw [hd] at hopen hdrop
    simp_all [List.countP_cons]
  | @call opening callee below hk hd hc =>
    have hopen := List.head?_dropWhile_not (!isOpen ·) stack
    rw [hd] at hopen hdrop
    simp_all [List.countP_cons, isOpen]
  | operator hk =>
    have hdrop := @countP_dropWhile stack (appliesBefore l.kind) fun _ => isOpen_of_appliesBefore
    cases hk' : l.kind <;> simp_all [isOpen, Kind.isArithmetic]
  | operand hk hd hc =>
    cases hk' : l.kind <;> simp_all [isDropped]

theorem Moves.grows (h : Moves l stack output stack' output') :
    ∃ more, output' = more ++ output := by
  cases h with
  | push => exact ⟨[], rfl⟩
  | operand => exact ⟨[l], rfl⟩
  | comma | close | operator => exact ⟨_, List.reverseAux_eq⟩
  | call => exact ⟨_ :: _, by rw [List.reverseAux_eq]; rfl⟩

/-- What lies under an open parenthesis stays there until that is closed. -/
theorem Moves.above (h : Moves l (w ++ opening :: below) output stack' output')
    (ho : isOpen opening) (hd : deeper (w.countP isOpen) l = some d) :
    ∃ w', stack' = w' ++ opening :: below := by
  have hstop : ∀ p : Lexeme → Bool, (∀ l, p l → isOpen l = false) →
      (w ++ opening :: below).dropWhile p = w.dropWhile p ++ opening :: below := fun p hp =>
    (takeWhile_append_stop (Bool.eq_false_iff.mpr fun hopening => by
      rw [hp opening hopening] at ho
      cases ho)).2
  have hclosing (hk : l.kind = .closeParen) : ∃ o rest, w.dropWhile (!isOpen ·) = o :: rest := by
    have hcount := deeper_eq_some.mp hd
    have hdrop := @countP_dropWhile w (!isOpen ·) (by simp)
    rw [hk, List.count_singleton_self] at hcount
    cases hw : w.dropWhile (!isOpen ·) with
    | nil =>
      rw [hw, List.countP_nil] at hdrop
      simp at hcount
      omega
    | cons o rest => exact ⟨o, rest, rfl⟩
  cases h with
  | push => exact ⟨l :: w, rfl⟩
  | comma => exact ⟨_, hstop _ (by simp)⟩
  | close hk hd' _ =>
    obtain ⟨o, rest, hrest⟩ := hclosing hk
    rw [hstop _ (by simp), hrest, List.cons_append, List.cons.injEq] at hd'
    exact ⟨rest, hd'.2.symm⟩
  | call hk hd' hc =>
    obtain ⟨o, rest, hrest⟩ := hclosing hk
    rw [hstop _ (by simp), hrest, List.cons_append, List.cons.injEq] at hd'
    cases rest with
    | nil =>
      obtain ⟨rfl, rfl⟩ := List.cons.inj hd'.2
      simp [isOpen, hc] at ho
    | cons _ rest => exact ⟨rest, (List.cons.inj hd'.2).2.symm⟩
  | operator => exact ⟨l :: w.dropWhile (appliesBefore l.kind), by
      rw [hstop _ fun _ => isOpen_of_appliesBefore, List.cons_append]⟩
  | operand => exact ⟨w, rfl⟩

theorem waiting_append : waiting (stack ++ base) = waiting stack ++ waiting base :=
  List.filter_append ..

/-- A text whose parentheses are paired leaves the stack under it alone, and is put out or waits. -/
theorem shunt_above (ht : ∀ l ∈ args, isTerminator l = false) (ho : isOpen opening)
    (hd : args.foldlM deeper (w.countP isOpen) = some d)
    (h : shunt (args ++ rest) (w ++ opening :: below) output = .ok result) :
    ∃ w' more, shunt rest (w' ++ opening :: below) (more ++ output) = .ok result ∧
      w'.countP isOpen = d ∧ ∀ x, more.count x + (waiting w').count x =
        (waiting w).count x + (args.filter (!isDropped ·)).count x := by
  induction args generalizing w output with
  | nil =>
    cases hd
    exact ⟨w, [], h, rfl, fun x => by simp⟩
  | cons l args ih =>
    rw [List.foldlM_cons] at hd
    obtain ⟨c, hc, hd⟩ := Option.bind_eq_some_iff.mp hd
    obtain ⟨stack', output', hmoves, h⟩ := exists_moves (ht l List.mem_cons_self) h
    obtain ⟨w', rfl⟩ := hmoves.above ho hc
    obtain ⟨more, rfl⟩ := hmoves.grows
    have hdepth : w'.countP isOpen = c := by
      have hstack := deeper_eq_some.mp hmoves.countP_isOpen
      have hw := deeper_eq_some.mp hc
      rw [List.countP_append, List.countP_append] at hstack
      omega
    obtain ⟨w'', more', h, hd', hcount⟩ :=
      ih (fun x hx => ht x (List.mem_cons_of_mem l hx)) (hdepth ▸ hd) h
    refine ⟨w'', more' ++ more, by rw [List.append_assoc]; exact h, hd', fun x => ?_⟩
    have hmove := hmoves.count x
    have hrest := hcount x
    rw [waiting_append, waiting_append, List.count_append, List.count_append, List.count_append]
      at hmove
    rw [List.count_append, ← List.singleton_append, List.filter_append, List.count_append]
    omega

theorem shunt_grows (h : shunt ls stack output = .ok result) : ∃ more, result = more ++ output := by
  induction ls generalizing stack output with
  | nil =>
    simp only [shunt, Except.ok.injEq] at h
    exact ⟨_, by rw [← h, List.reverseAux_eq]⟩
  | cons l ls ih =>
    by_cases hl : isTerminator l
    · simp only [shunt, isTerminator_iff.mp hl, Except.ok.injEq] at h
      exact ⟨l :: _, by rw [← h, List.reverseAux_eq]; rfl⟩
    · obtain ⟨stack', output', hmoves, h⟩ := exists_moves (by simpa using hl) h
      obtain ⟨more, rfl⟩ := hmoves.grows
      obtain ⟨more', rfl⟩ := ih h
      exact ⟨more' ++ more, by rw [List.append_assoc]⟩

/-- Reading goes on behind the beginning of a statement from where that has led. -/
theorem exists_shunt (ht : ∀ l ∈ pre, isTerminator l = false)
    (h : shunt (pre ++ rest) stack output = .ok result) :
    ∃ stack' output', shunt rest stack' output' = .ok result ∧
      pre.foldlM deeper (stack.countP isOpen) = some (stack'.countP isOpen) := by
  induction pre generalizing stack output with
  | nil => exact ⟨stack, output, h, rfl⟩
  | cons l pre ih =>
    obtain ⟨stack', output', hmoves, h⟩ := exists_moves (ht l List.mem_cons_self) h
    obtain ⟨stack'', output'', h, hpre⟩ := ih (fun x hx => ht x (List.mem_cons_of_mem l hx)) h
    refine ⟨stack'', output'', h, ?_⟩
    rw [List.foldlM_cons, hmoves.countP_isOpen]
    exact hpre

theorem deeper_markCall : deeper d (markCall symbols l) = deeper d l := by
  apply Option.ext
  intro e
  rw [deeper_eq_some, deeper_eq_some, kind_markCall]
  split
  · next hc => simp [kind_of_isCallee hc]
  · rfl

theorem foldlM_deeper_markCall :
    (ls.map (markCall symbols)).foldlM deeper d = ls.foldlM deeper d := by
  simp only [List.foldlM_map, deeper_markCall]

/-- The parentheses of a statement that is put into postfix order are paired. -/
theorem paired_of_ofStatement (ht : isTerminator terminator)
    (hinner : ∀ l ∈ inner, isTerminator l = false)
    (h : ofStatement symbols (inner ++ [terminator]) = .ok reordered) : Paired inner := by
  have hkind := isTerminator_iff.mp ht
  have hcount := count_of_ofStatement h
  obtain ⟨-, -, hshunt⟩ := ofStatement_eq_ok.mp h
  rw [List.map_append] at hshunt
  obtain ⟨stack, output, -, hinner⟩ := exists_shunt (not_isTerminator_markCall hinner) hshunt
  rw [foldlM_deeper_markCall, List.countP_nil] at hinner
  have hdepth := foldlM_deeper hinner
  rw [List.map_append, List.count_append, List.count_append] at hcount
  simp only [List.map_cons, List.map_nil, hkind] at hcount
  have hnone : ([Kind.semicolon].count .openParen = 0) ∧ ([Kind.semicolon].count .closeParen = 0) :=
    by decide
  rw [Paired, hinner, Option.some.injEq]
  omega

/-- The call marker stands right behind what postfix order keeps of the arguments. -/
theorem shunt_call (ht : ∀ l ∈ args, isTerminator l = false) (hargs : Paired args)
    (hc : callee.kind = .call) (ho : opening.kind = .openParen) (hk : closing.kind = .closeParen)
    (h : shunt (callee :: opening :: (args ++ closing :: rest)) stack output = .ok result) :
    ∃ more, more.Perm (args.filter (!isDropped ·)) ∧
      shunt rest stack (callee :: (more ++ output)) = .ok result := by
  have hcallee : role callee = some .callee := by rw [role, hc]; rfl
  have hopening : role opening = some .opening := by rw [role, ho]; rfl
  have hclosing : role closing = some .closing := by rw [role, hk]; rfl
  rw [shunt_callee hcallee, shunt_opening hopening] at h
  obtain ⟨w, more, h, hw, hcount⟩ := shunt_above (w := []) ht (isOpen_of_opening hopening) hargs h
  have hwaits : ∀ o ∈ w, !isOpen o := by simpa using List.countP_eq_zero.mp hw
  have hwaiting : waiting w = w := List.filter_eq_self.mpr hwaits
  rw [shunt_closing_call hclosing hopening hcallee hwaits, ← List.append_assoc] at h
  refine ⟨w.reverse ++ more, List.perm_iff_count.mpr fun x => ?_, h⟩
  have hx := hcount x
  rw [hwaiting] at hx
  rw [List.count_append, List.count_reverse]
  simpa [waiting, Nat.add_comm] using hx

/-- In postfix order a call stands right behind its arguments. -/
theorem call_of_ofStatement (ht : isTerminator terminator)
    (hinner : ∀ l ∈ pre ++ callee :: opening :: rest, isTerminator l = false)
    (h : ofStatement symbols (pre ++ callee :: opening :: rest ++ [terminator]) = .ok reordered)
    (hc : isCallee symbols callee) (ho : opening.kind = .openParen) :
    ∃ args closing post front arguments behind,
      rest = args ++ closing :: post ∧ closing.kind = .closeParen ∧ Paired args ∧
        arguments.Perm (kept symbols args) ∧
        reordered = front ++ (arguments ++ [markCall symbols callee]) ++ behind := by
  have hpaired := paired_of_ofStatement ht hinner h
  obtain ⟨-, -, hshunt⟩ := ofStatement_eq_ok.mp h
  have hkind := kind_of_isCallee hc
  rw [Paired, List.foldlM_append] at hpaired
  obtain ⟨d, -, hdeep⟩ := Option.bind_eq_some_iff.mp hpaired
  have hcalleeDeep : deeper d callee = some d := deeper_eq_some.mpr (by simp [hkind])
  have hopeningDeep : deeper d opening = some (d + 1) := deeper_eq_some.mpr (by simp [ho])
  simp only [List.foldlM_cons, hcalleeDeep, hopeningDeep, Option.bind_eq_bind,
    Option.bind_some] at hdeep
  obtain ⟨args, closing, post, rfl, hclosing, hargs⟩ := exists_closing hdeep (Nat.zero_le d)
  have hpre : ∀ l ∈ pre, isTerminator l = false := fun l hl =>
    hinner l (List.mem_append_left _ hl)
  have hin : ∀ l ∈ args, isTerminator l = false := fun l hl =>
    hinner l (List.mem_append_right _ (by simp [hl]))
  rw [List.map_append, List.map_append, List.append_assoc] at hshunt
  obtain ⟨stack, output, hshunt, -⟩ := exists_shunt (not_isTerminator_markCall hpre) hshunt
  simp only [List.map_cons, List.map_append, List.cons_append, List.append_assoc,
    markCall_of_ne (show opening.kind ≠ .identifier by simp [ho]),
    markCall_of_ne (show closing.kind ≠ .identifier by simp [hclosing])] at hshunt
  have hcall : (markCall symbols callee).kind = .call := by rw [kind_markCall, if_pos hc]
  have hargs' : Paired (args.map (markCall symbols)) := foldlM_deeper_markCall.trans hargs
  obtain ⟨arguments, hperm, hshunt⟩ :=
    shunt_call (not_isTerminator_markCall hin) hargs' hcall ho hclosing hshunt
  obtain ⟨more, hmore⟩ := shunt_grows hshunt
  refine ⟨args, closing, post, output.reverse, arguments.reverse, more.reverse, rfl, hclosing,
    hargs, (List.reverse_perm _).trans hperm, ?_⟩
  rw [← List.reverse_reverse reordered, hmore]
  simp

end Ttm.Postfix
