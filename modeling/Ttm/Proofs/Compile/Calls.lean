import Ttm.Proofs.Compile.Stages
import Ttm.Proofs.Postfix.Arguments
import Ttm.Proofs.Postfix.Completed

/-! Which calls of a program are put into postfix order, and which stay as they were written. -/
namespace Ttm

namespace Postfix

open Lexeme (Kind)

/-- Since the last semicolon or brace before `i` there is no `=`, `ret` or `echo`, and no call right
behind it: a pass does not reach what stands at `i`. -/
def Stranded (symbols : Symbol.Table) (t : Lexeme.Table) (i : Nat) : Prop :=
  ∃ b ≤ i, endsStatement (kindBefore t b) ∧ (t.get? b).any (isCallee symbols) = false ∧
    ∀ j, b ≤ j → j < i → ∀ l, t.get? j = some l →
      leads l.kind = false ∧ endsStatement (some l.kind) = false

/-- A call that was written in front of its arguments stands behind them. -/
inductive Called (symbols : Symbol.Table) (before after : Lexeme.Table) : Nat → Prop
  | behind {s : Nat} {span pre args post front arguments rest : List Lexeme}
    {callee opening closing : Lexeme} (hs : s ∈ starts symbols before)
    (hspan : statementAt? before s = some span)
    (hwritten : span = pre ++ callee :: opening :: (args ++ closing :: post))
    (hopening : opening.kind = .openParen) (hclosing : closing.kind = .closeParen)
    (hargs : Paired args) (hperm : arguments.Perm (kept symbols args))
    (hmoved : (after.toList.drop s).take span.length =
      front ++ (arguments ++ [markCall symbols callee]) ++ rest) :
    Called symbols before after (s + pre.length)

variable {limits : Limits} {symbols : Symbol.Table} {t before after : Lexeme.Table}
  {metrics : Metrics} {i k s : Nat} {l callee opening : Lexeme} {ls span : List Lexeme}

theorem not_leads_of_endsStatement {previous : Option Kind} (h : endsStatement previous) :
    previous.any leads = false := by
  unfold endsStatement at h
  split at h <;> first | rfl | cases h

/-- The statement around a place has a first lexeme. -/
theorem exists_beginning (t : Lexeme.Table) (i : Nat) : ∃ b ≤ i, endsStatement (kindBefore t b) ∧
    ∀ j, b ≤ j → j < i → ∀ l, t.get? j = some l → endsStatement (some l.kind) = false := by
  induction i with
  | zero => exact ⟨0, Nat.le_refl 0, rfl, fun j _ hj => absurd hj (Nat.not_lt_zero j)⟩
  | succ i ih =>
    by_cases hends : endsStatement (kindBefore t (i + 1))
    · exact ⟨i + 1, Nat.le_refl _, hends, fun j hle hlt => by omega⟩
    · obtain ⟨b, hle, hb, hquiet⟩ := ih
      refine ⟨b, Nat.le_succ_of_le hle, hb, fun j hbj hj l hl => ?_⟩
      by_cases hji : j = i
      · subst hji
        rw [kindBefore, hl] at hends
        simpa using hends
      · exact hquiet j hbj (by omega) l hl

/-- A statement goes on where nothing ends it. -/
theorem inside_of_quiet (hs : statementAt? t s = some span) (hle : s ≤ i)
    (h : ∀ j, s ≤ j → j < i → ∀ l, t.get? j = some l → endsStatement (some l.kind) = false) :
    Inside t s i := by
  refine (inside_iff hs).mpr ⟨hle, ?_⟩
  by_contra hge
  have hlength := (length_of_statementAt? hs).1
  have hbehind := kindBefore_behind hs
  obtain ⟨n, hn⟩ : ∃ n, s + span.length = n + 1 := ⟨s + span.length - 1, by omega⟩
  rw [hn, kindBefore] at hbehind
  obtain ⟨terminator, hlast, hkind⟩ := Option.map_eq_some_iff.mp hbehind
  have hquiet := h n (by omega) (by omega) terminator hlast
  rw [hkind] at hquiet
  cases hquiet

/-- What is stranded is just what belongs to no statement that is converted. -/
theorem stranded_iff (h : Completed symbols t after metrics) (hl : t.get? i = some l) :
    Stranded symbols t i ↔ ∀ s ∈ starts symbols t, ¬ Inside t s i := by
  have hi := Lexeme.Table.get?_lt hl
  constructor
  · rintro ⟨b, hbi, hends, hcallee, hquiet⟩ s hs hinside
    obtain ⟨span, body, terminator, hspan, hreordered, -⟩ := h.converted s hs
    obtain ⟨hsi, hlt⟩ := (inside_iff hspan).mp hinside
    have hstart := (mem_startsBelow.mp hs).2
    rcases Nat.lt_trichotomy s b with hsb | rfl | hbs
    · obtain ⟨c, rfl⟩ : ∃ c, b = c + 1 := ⟨b - 1, by omega⟩
      obtain ⟨m, hm, hpart, hmTerminator⟩ :=
        part_inside hspan hreordered (i := c) (by omega) (by omega)
      rw [kindBefore, hm] at hends
      cases hends.symm.trans (quiet_of_isPart hpart hmTerminator).2
    · rw [isStart, not_leads_of_endsStatement hends, hcallee] at hstart
      simp at hstart
    · obtain ⟨c, rfl⟩ : ∃ c, s = c + 1 := ⟨s - 1, by omega⟩
      obtain ⟨m, hm⟩ : ∃ m, t.get? c = some m := by
        rw [Lexeme.Table.get?_eq_getElem?]
        exact ⟨_, List.getElem?_eq_getElem (by rw [Lexeme.Table.length_toList]; omega)⟩
      obtain ⟨hmLeads, hmEnds⟩ := hquiet c (by omega) (by omega) m hm
      simp [isStart, kindBefore, hm, hmLeads, hmEnds] at hstart
  · intro hnone
    obtain ⟨b, hbi, hends, hquiet⟩ := exists_beginning t i
    have hnot (s : Nat) (hbs : b ≤ s) (hsi : s ≤ i) : isStart symbols t s = false := by
      refine Bool.eq_false_iff.mpr fun hstart => ?_
      have hs : s ∈ starts symbols t := mem_startsBelow.mpr ⟨by omega, hstart⟩
      obtain ⟨span, body, terminator, hspan, -⟩ := h.converted s hs
      exact hnone s hs (inside_of_quiet hspan hsi fun j hj hji => hquiet j (by omega) hji)
    refine ⟨b, hbi, hends, ?_, fun j hbj hji m hm => ⟨?_, hquiet j hbj hji m hm⟩⟩
    · have hb := hnot b (Nat.le_refl b) hbi
      rw [isStart, not_leads_of_endsStatement hends, hends] at hb
      simpa using hb
    · have hj := hnot (j + 1) (by omega) (by omega)
      simp only [isStart, kindBefore, hm, Option.map_some, Option.any_some,
        Bool.or_eq_false_iff] at hj
      exact hj.1

/-- A pass does not reach what stands behind an `else`. -/
theorem stranded_of_else (h : Completed symbols t after metrics) (hl : t.get? i = some l)
    (helse : kindBefore t i = some .elseWord) : Stranded symbols t i := by
  refine (stranded_iff h hl).mpr fun s hs hinside => ?_
  obtain ⟨span, body, terminator, hspan, hreordered, -⟩ := h.converted s hs
  obtain ⟨hsi, hlt⟩ := (inside_iff hspan).mp hinside
  rcases Nat.eq_or_lt_of_le hsi with rfl | hsi
  · have hstart := (mem_startsBelow.mp hs).2
    rw [isStart, helse] at hstart
    cases hstart
  · obtain ⟨c, rfl⟩ : ∃ c, i = c + 1 := ⟨i - 1, by omega⟩
    obtain ⟨m, hm, hpart, -⟩ := part_inside hspan hreordered (i := c) (by omega) hlt
    rw [kindBefore, hm, Option.map_some, Option.some.injEq] at helse
    rw [helse] at hpart
    cases hpart

/-- A name of a function is left where a pass does not come, and nowhere else. -/
theorem isCallee_completed (h : Completed symbols before after metrics) :
    after.get? i = some l ∧ isCallee symbols l ↔
      before.get? i = some l ∧ isCallee symbols l ∧ Stranded symbols before i := by
  constructor
  · rintro ⟨hl, hcallee⟩
    have houtside : ∀ s ∈ starts symbols before, ¬ Inside before s i := by
      intro s hs hinside
      obtain ⟨span, body, terminator, hspan, -, hslice, hterminator, hbody⟩ := h.converted s hs
      obtain ⟨hsi, hlt⟩ := (inside_iff hspan).mp hinside
      have hmem : l ∈ filled span (body ++ [terminator]) := by
        apply List.mem_of_getElem? (i := i - s)
        rw [← hslice, List.getElem?_take_of_lt (by omega), List.getElem?_drop,
          show s + (i - s) = i by omega, ← Lexeme.Table.get?_eq_getElem?, hl]
      rw [filled, List.mem_append, List.mem_append, List.mem_singleton] at hmem
      rcases hmem with (hmem | rfl) | hmem
      · rw [(hbody l hmem).isCallee] at hcallee
        cases hcallee
      · simp_all [isCallee, isTerminator]
      · rw [List.eq_of_mem_replicate hmem] at hcallee
        cases hcallee
    have hbefore := (h.outside i houtside).symm.trans hl
    exact ⟨hbefore, hcallee, (stranded_iff h hbefore).mpr houtside⟩
  · rintro ⟨hl, hcallee, hstranded⟩
    exact ⟨(h.outside i ((stranded_iff h hl).mp hstranded)).trans hl, hcallee⟩

theorem append_of_getElem? (hl : ls[k]? = some callee) (hm : ls[k + 1]? = some opening) :
    ∃ pre rest, ls = pre ++ callee :: opening :: rest ∧ pre.length = k := by
  obtain ⟨hlt, rfl⟩ := List.getElem?_eq_some_iff.mp hm
  obtain ⟨_, rfl⟩ := List.getElem?_eq_some_iff.mp hl
  refine ⟨ls.take k, ls.drop (k + 2), ?_, List.length_take_of_le (by omega)⟩
  rw [← List.drop_eq_getElem_cons, ← List.drop_eq_getElem_cons, List.take_append_drop]

theorem getElem?_of_ne {terminator : Lexeme} (hl : (ls ++ [terminator])[k]? = some l)
    (hne : l ≠ terminator) : ls[k]? = some l := by
  by_cases hk : k < ls.length
  · rwa [List.getElem?_append_left hk] at hl
  · rw [List.getElem?_append_right (Nat.le_of_not_lt hk)] at hl
    exact absurd (List.mem_singleton.mp (List.mem_of_getElem? hl)) hne

/-- A call within a statement is followed by more of it than the semicolon. -/
theorem exists_call_of_statementAt? (hspan : statementAt? t s = some span) (hlt : k < span.length)
    (hl : t.get? (s + k) = some callee) (hcallee : isCallee symbols callee)
    (hm : t.get? (s + k + 1) = some opening) (hopening : opening.kind = .openParen) :
    ∃ pre rest terminator, span = pre ++ callee :: opening :: rest ++ [terminator] ∧
      isTerminator terminator ∧
      (∀ l ∈ pre ++ callee :: opening :: rest, isTerminator l = false) ∧ pre.length = k := by
  obtain ⟨inner, terminator, -, rfl, hterminator, hinner, -⟩ := statementAt?_eq_some.mp hspan
  have hkind := isTerminator_iff.mp hterminator
  rw [get?_of_statementAt? hspan hlt] at hl
  have hk : inner[k]? = some callee := getElem?_of_ne hl (by
    rintro rfl
    simp [isCallee, hkind] at hcallee)
  have hklt : k < inner.length := (List.getElem?_eq_some_iff.mp hk).1
  rw [Nat.add_assoc, get?_of_statementAt? hspan (by simpa using hklt)] at hm
  have hk' : inner[k + 1]? = some opening := getElem?_of_ne hm (by
    rintro rfl
    simp [hkind] at hopening)
  obtain ⟨pre, rest, rfl, rfl⟩ := append_of_getElem? hk hk'
  exact ⟨pre, rest, terminator, rfl, hterminator, hinner, rfl⟩

/-- Where a pass does come, a call gets behind its arguments. -/
theorem called_completed (h : Completed symbols before after metrics)
    (hl : before.get? i = some callee) (hcallee : isCallee symbols callee)
    (hm : before.get? (i + 1) = some opening) (hopening : opening.kind = .openParen)
    (hreached : ¬ Stranded symbols before i) : Called symbols before after i := by
  rw [stranded_iff h hl] at hreached
  obtain ⟨s, hreached⟩ := Classical.not_forall.mp hreached
  obtain ⟨hs, hinside⟩ := Classical.not_imp.mp hreached
  obtain ⟨span, body, last, hspan, hreordered, hslice, -⟩ := h.converted s hs
  obtain ⟨hsi, hlt⟩ := (inside_iff hspan).mp (Classical.not_not.mp hinside)
  obtain ⟨k, rfl⟩ : ∃ k, i = s + k := ⟨i - s, by omega⟩
  obtain ⟨pre, rest, terminator, rfl, hterminator, hinner, rfl⟩ :=
    exists_call_of_statementAt? hspan (by omega) hl hcallee hm hopening
  obtain ⟨args, closing, post, front, arguments, behind, rfl, hclosing, hargs, hperm, hmoved⟩ :=
    call_of_ofStatement hterminator hinner hreordered hcallee hopening
  have hwritten : pre ++ callee :: opening :: (args ++ closing :: post) ++ [terminator] =
      pre ++ callee :: opening :: (args ++ closing :: (post ++ [terminator])) := by
    simp
  obtain ⟨rest, hrest⟩ : ∃ rest, filled (pre ++ callee :: opening :: (args ++ closing :: post) ++
      [terminator]) (body ++ [last]) = front ++ (arguments ++ [markCall symbols callee]) ++ rest :=
    ⟨behind ++ _, by rw [filled, hmoved, List.append_assoc]⟩
  exact .behind hs hspan hwritten hopening hclosing hargs hperm (hslice.trans hrest)

/-- What became of the calls of a scanned program when it was put into postfix order. -/
structure Settled (scanned compiled : Program) : Prop where
  symbols : compiled.symbols = scanned.symbols
  left : ∀ i l, compiled.lexemes.get? i = some l ∧ isCallee scanned.symbols l ↔
    scanned.lexemes.get? i = some l ∧ isCallee scanned.symbols l ∧
      Stranded scanned.symbols scanned.lexemes i
  behindElse : ∀ i l, scanned.lexemes.get? i = some l →
    kindBefore scanned.lexemes i = some .elseWord → Stranded scanned.symbols scanned.lexemes i
  called : ∀ i callee opening, scanned.lexemes.get? i = some callee →
    isCallee scanned.symbols callee → scanned.lexemes.get? (i + 1) = some opening →
    opening.kind = .openParen → ¬ Stranded scanned.symbols scanned.lexemes i →
      Called scanned.symbols scanned.lexemes compiled.lexemes i

end Postfix

namespace Compile

open Postfix (Settled)

section

variable {limits : Limits} {settings : Settings} {source : List UInt8} {compiled : Compiled}

/-- In a compiled program the names of functions are left that a pass did not reach, as every one
behind an `else`; all other calls have got behind their arguments. -/
theorem source_settled (h : (Compile.source limits settings source).2 = .ok compiled) :
    ∃ tokens program notes metrics, Source.tokenize limits source = .ok tokens ∧
      Program.scan settings.scan limits.maxScopeDepth tokens.tokens
        (.empty limits.maxSymbols limits.maxLexemes) = ⟨program, notes, .ok metrics⟩ ∧
      Settled program compiled.program := by
  obtain ⟨tokens, program, notes, metrics, conversion, htokens, hscan, hconvert, hcompiled⟩ :=
    stages_of_source h
  have hcompleted := Postfix.completed_of_ok
    (Postfix.unconverted_of_linked (Program.linked_of_scan hscan)) hconvert
  refine ⟨tokens, program, notes, metrics, htokens, hscan, ?_⟩
  rw [hcompiled]
  exact {
    symbols := rfl
    left := fun i l => Postfix.isCallee_completed hcompleted
    behindElse := fun i l hl helse => Postfix.stranded_of_else hcompleted hl helse
    called := fun i callee opening hl hc hm ho hreached =>
      Postfix.called_completed hcompleted hl hc hm ho hreached }

end

attribute [local instance] Limits.development

/-- A function that calls itself behind a condition, behind an `else` and behind a `ret`. -/
def selfCalls : List String :=
  ["fn", "i32", "f", "(", "i32", "a", ")", "\x7b", "if", "(", "a", "==", "a", ")", "f", "(", "a",
    ")", ";", "else", "f", "(", "a", ")", ";", "ret", "f", "(", "a", ")", ";", "\x7d", "fn", "i32",
    "main", "(", ")", "\x7b", "\x7d"]

def selfCallsSource : List UInt8 :=
  (" ".intercalate selfCalls).toList.map fun c => .ofNat c.toNat

theorem tokenize_selfCalls : (Source.tokenize .development selfCallsSource).map (·.tokens) =
    .ok (Program.oneLine 1 selfCalls) := by
  decide +kernel

def selfCallsScan : Program.Scanned :=
  Program.scan {} Limits.development.maxScopeDepth (Program.oneLine 1 selfCalls)
    (.empty Limits.development.maxSymbols Limits.development.maxLexemes)

theorem source_selfCalls : ∃ compiled,
    (Compile.source .development {} selfCallsSource).2 = .ok compiled := by
  have hresults : (selfCallsScan.result, (Postfix.convertAll selfCallsScan.program.symbols {}
      selfCallsScan.program.lexemes).result) =
        (.ok { tokens := 39, lexemes := 39, symbols := 8, declarations := 3, maxScopeDepth := 2 },
          .ok { statements := 1, calls := 1, padding := 2 }) := by
    cbv
  obtain ⟨hscan, hconvert⟩ := Prod.mk.inj hresults
  have hread := tokenize_selfCalls
  cases htokens : Source.tokenize .development selfCallsSource with
  | error e =>
    rw [htokens] at hread
    cases hread
  | ok tokens =>
    rw [htokens] at hread
    have hlist : tokens.tokens = Program.oneLine 1 selfCalls := Except.ok.inj hread
    have hscanned : Program.scan {} Limits.development.maxScopeDepth tokens.tokens
        (.empty Limits.development.maxSymbols Limits.development.maxLexemes) =
          ⟨selfCallsScan.program, selfCallsScan.notes, selfCallsScan.result⟩ := by
      rw [hlist]
      rfl
    rw [hscan] at hscanned
    rw [source_eq_stages, stages_of_tokenize htokens, scan_of_ok hscanned, convert_of_ok hconvert]
    exact ⟨_, rfl⟩

/-- The call behind the `else` is left as it was written. -/
theorem settled_selfCalls : ∃ compiled,
    (Compile.source .development {} selfCallsSource).2 = .ok compiled ∧
      Settled selfCallsScan.program compiled.program ∧
      compiled.program.lexemes.get? 20 = some ⟨.identifier, 1, some 5⟩ ∧
      Postfix.isCallee compiled.program.symbols ⟨.identifier, 1, some 5⟩ := by
  obtain ⟨compiled, hok⟩ := source_selfCalls
  obtain ⟨tokens, program, notes, metrics, htokens, hscan, hsettled⟩ := source_settled hok
  have hread := tokenize_selfCalls
  rw [htokens] at hread
  have hlist : tokens.tokens = Program.oneLine 1 selfCalls := Except.ok.inj hread
  rw [hlist] at hscan
  have hprogram : selfCallsScan.program = program := congrArg Program.Scanned.program hscan
  rw [← hprogram] at hsettled
  have hplace : (selfCallsScan.program.lexemes.get? 20,
      Postfix.isCallee selfCallsScan.program.symbols ⟨.identifier, 1, some 5⟩,
      Postfix.kindBefore selfCallsScan.program.lexemes 20) =
        (some ⟨.identifier, 1, some 5⟩, true, some .elseWord) := by
    cbv
  obtain ⟨hcall, hrest⟩ := Prod.mk.inj hplace
  obtain ⟨hcallee, helse⟩ := Prod.mk.inj hrest
  have hleft := (hsettled.left 20 _).mpr ⟨hcall, hcallee, hsettled.behindElse 20 _ hcall helse⟩
  exact ⟨compiled, hok, hsettled, hleft.1, by rw [hsettled.symbols]; exact hcallee⟩

end Compile
end Ttm
