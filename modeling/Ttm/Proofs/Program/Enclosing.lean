import Ttm.Proofs.Program.Assembly
import Ttm.Proofs.Program.Declaration
import Ttm.Proofs.Program.Recall

/-! The function that encloses a token, and the scope in which names are found there. -/
namespace Ttm

open Lexeme (Kind)
open Source (Token)

namespace Symbol

/-- Types and names of the functions of a table, in the order of their insertion. -/
def Table.functions (t : Table) : List (DataType × String) :=
  (t.toList.filter (·.isFunction)).map fun x => (x.type, x.name)

theorem Table.functions_add {t : Table} {x : Symbol} : (t.add x).functions =
    t.functions ++ if x.isFunction then [(x.type, x.name)] else [] := by
  rw [functions, toList_add, List.filter_append, List.map_append]
  cases h : x.isFunction <;> simp [functions, h]

/-- Types and names of the functions of the library. -/
def Signature.functions : List (DataType × String) := all.map fun s => (s.returns, s.name)

end Symbol

namespace Program

/-- A datatype and the name behind it. -/
def typed? [Limits] (done : List Token) (token : Token) : Option (DataType × String) :=
  (done.getLast?.bind Token.type?).map (·, token.text)

/-- A token behind `fn` and a datatype names a function. -/
def function? [Limits] (done : List Token) (token : Token) : Option (DataType × String) :=
  if recent? done 1 = some .fnWord then typed? done token else none

/-- Types and names of the functions that a token list defines. -/
def functions [Limits] (tokens : List Token) : List (DataType × String) :=
  gather function? [] tokens

/-- The name of the function defined last, empty where there is none. -/
def lastFunction [Limits] (done : List Token) : String :=
  (functions done).getLast?.elim Symbol.globalScope (·.2)

/-- The function that encloses what comes behind `done`: none outside of brackets, and inside of
them the one defined last. -/
def enclosing [Limits] (done : List Token) : String :=
  if opened done = closed done then Symbol.globalScope else lastFunction done

/-- Every `fn` stands outside of brackets, in front of a datatype and a name. -/
def FunctionsOutside [Limits] (tokens : List Token) : Prop :=
  ∀ q, q < tokens.length → tokens[q]?.bind Token.kind? = some .fnWord →
    opened (tokens.take q) = closed (tokens.take q) ∧
    tokens[q + 1]?.bind Token.kind? = some .datatype ∧
    (tokens[q + 2]?.bind Token.kind? = some .identifier ∨
      tokens[q + 2]?.bind Token.kind? = some .mainWord)

instance [Limits] (tokens : List Token) : Decidable (FunctionsOutside tokens) :=
  inferInstanceAs (Decidable (∀ q, q < tokens.length → _))

/-- The scopes of a scan are those of the enclosing functions: the global one at the bottom, and
the function defined last for every bracket that is open. -/
structure Encloses [Limits] (done : List Token) (s : Scan.State) : Prop where
  stack : s.scopes.current :: s.scopes.saved =
    List.replicate s.scopes.depth s.function ++ [Symbol.globalScope]
  function : s.function = lastFunction done
  functions : s.program.symbols.functions = Symbol.Signature.functions ++ functions done

/-- The tokens `done` of a list that ends with `rest`. -/
def Scan.scanBefore [Limits] (rest : List Token) : List Token → Scan.Action Unit
  | [] => pure ()
  | token :: done => do
    scanToken token (opensCall (done ++ rest))
    scanBefore rest done

/-- The lexeme at `n` is that of an identifier behind `before`. It refers to a symbol of that name
in the scope of the enclosing function; only a call may refer to a global one instead. -/
def ResolvesWithin [Limits] (p : Program) (n : Nat) (before : List Token) (token : Token)
    (called : Bool) : Prop :=
  ∃ i x, p.lexemes.get? n = some ⟨.identifier, token.line, some i⟩ ∧
    p.symbols.get? i = some x ∧ x.name = token.text ∧
    (x.scope = enclosing before ∨ called ∧ x.scope = Symbol.globalScope)

/-- The scopes of a scan into empty tables are the enclosing functions. In front of every token they
are as many as brackets are open, and the current one is that of the function defined last; the
functions have different names, so that no other one is meant. -/
structure ScopesEnclose [Limits] (settings : ScanSettings) (maxDepth maxSymbols maxLexemes : Nat)
    (tokens : List Token) : Prop where
  distinct : ((functions tokens).map (·.2)).Nodup
  inside : ∀ before token after, tokens = before ++ token :: after →
    ∃ u, Scan.scanBefore (token :: after) before (.begin settings maxDepth
        (Symbol.Table.empty maxSymbols).registerLibrary.2 (.empty maxLexemes)) = .ok () u ∧
      u.program.symbols.functions = Symbol.Signature.functions ++ functions before ∧
      opened before = closed before + u.scopes.depth ∧
      u.scopes.current = enclosing before ∧
      (token.kind? = some .identifier →
        ResolvesWithin (scan settings maxDepth tokens (empty maxSymbols maxLexemes)).program
          u.program.lexemes.size before token (Scan.opensCall after))

section

variable {settings : ScanSettings} {limits : Limits} {done rest tokens : List Token} {token : Token}
  {called : Bool} {s t : Scan.State} {type : DataType} {k : Kind} {maxDepth : Nat}
  {kind : SymbolKind}

theorem functions_concat :
    functions (done ++ [token]) = functions done ++ (function? done token).toList :=
  gather_concat

theorem lastFunction_concat : lastFunction (done ++ [token]) =
    (function? done token).elim (lastFunction done) (·.2) := by
  unfold lastFunction
  rw [functions_concat]
  cases function? done token <;> simp

theorem eq_append_of_recent? (h : recent? done 1 = some k) :
    ∃ before a b, done = before ++ [a, b] ∧ a.kind? = some k := by
  obtain ⟨a, ha, hk⟩ := Option.bind_eq_some_iff.mp h
  obtain ⟨b, rest, hrest⟩ : ∃ b rest, done.reverse = b :: a :: rest := by
    match hdone : done.reverse, ha with
    | b :: c :: rest, ha => exact ⟨b, rest, by rw [← Option.some.inj ha]⟩
  refine ⟨rest.reverse, a, b, ?_, hk⟩
  rw [← List.reverse_reverse done, hrest]
  simp

/-- A `fn` stands outside of brackets, and the next two tokens are a datatype and a name. -/
theorem FunctionsOutside.definition (h : FunctionsOutside (done ++ token :: rest))
    (hk : token.kind? = some .fnWord) : opened done = closed done ∧
      ∃ type name after, rest = type :: name :: after ∧ type.kind? = some .datatype ∧
        (name.kind? = some .identifier ∨ name.kind? = some .mainWord) := by
  obtain ⟨hdepth, htype, hname⟩ := h done.length (by simp) (by simpa using hk)
  have hnext (n : Nat) : (done ++ token :: rest)[done.length + (n + 1)]? = rest[n]? := by
    rw [List.getElem?_append_right (Nat.le_add_right _ _), Nat.add_sub_cancel_left]
    rfl
  rw [List.take_left] at hdepth
  rw [hnext 0] at htype
  rw [hnext 1] at hname
  refine ⟨hdepth, ?_⟩
  match rest, htype, hname with
  | type :: name :: after, htype, hname => exact ⟨type, name, after, rfl, htype, hname⟩

/-- Behind `fn` and one token more, brackets are closed, that token is a datatype, and the next one
is a name. -/
theorem FunctionsOutside.name (h : FunctionsOutside (done ++ token :: rest))
    (hfn : recent? done 1 = some .fnWord) :
    recent? done 0 = some .datatype ∧ opened done = closed done ∧
      (token.kind? = some .identifier ∨ token.kind? = some .mainWord) := by
  obtain ⟨before, word, type, rfl, hword⟩ := eq_append_of_recent? hfn
  have h : FunctionsOutside (before ++ word :: (type :: token :: rest)) := by simpa using h
  obtain ⟨hdepth, _, _, _, heq, htype, hname⟩ := h.definition hword
  cases heq
  obtain ⟨hwo, hwc⟩ := not_bracket hword (by decide)
  obtain ⟨hto, htc⟩ := not_bracket htype (by decide)
  refine ⟨by simpa [recent?] using htype, ?_, hname⟩
  simpa [opened, closed, hwo, hwc, hto, htc] using hdepth

/-- In front of a token, the scan declares a function just where the tokens define one. -/
theorem Recalls.declaresFunction (h : Recalls done s)
    (hname : recent? done 1 = some .fnWord → recent? done 0 = some .datatype) :
    s.declarationKind? = some .function ↔ recent? done 1 = some .fnWord := by
  rw [Scan.declarationKind?_eq_function, Lexeme.Table.declaresFunction, beq_iff_eq]
  constructor
  · exact h.before .fnWord (by decide)
  · exact fun hfn => h.both .fnWord .datatype (by decide) (by decide) hfn (hname hfn)

theorem Recalls.typed? (h : Recalls done s) (hlast : recent? done 0 = some .datatype)
    (ht : s.pendingType = some type) : typed? done token = some (type, token.text) := by
  obtain ⟨last, hlast', hk⟩ := Option.bind_eq_some_iff.mp hlast
  have hgetLast : done.getLast? = some last := by
    rw [← List.head?_reverse, List.head?_eq_getElem?, hlast']
  obtain ⟨type', htype⟩ := type?_of_kind? hk
  obtain rfl : type' = type :=
    Option.some.inj ((h.type last type' hgetLast htype).symm.trans ht)
  rw [Program.typed?, hgetLast, Option.bind_some, htype, Option.map_some]

theorem encloses_begin {settings : ScanSettings} {maxDepth n maxSymbols maxLexemes : Nat}
    {symbols : Symbol.Table}
    (h : (Symbol.Table.empty maxSymbols).registerLibrary = (.ok n, symbols)) :
    Encloses [] (.begin settings maxDepth symbols (.empty maxLexemes)) := by
  have hlist := Symbol.Table.toList_of_registerLibrary h
  refine ⟨rfl, rfl, ?_⟩
  show Symbol.Table.functions symbols = _
  rw [Symbol.Table.functions, hlist]
  rfl

/-- A token that defines no function keeps the functions, and the stack if it is no bracket. -/
theorem Encloses.keep (h : Encloses done s) (hnone : function? done token = none)
    (hf : t.function = s.function) (hx : t.program.symbols.functions = s.program.symbols.functions)
    (hs : t.scopes.current :: t.scopes.saved =
      List.replicate t.scopes.depth s.function ++ [Symbol.globalScope]) :
    Encloses (done ++ [token]) t := by
  refine ⟨by rw [hf]; exact hs, ?_, ?_⟩
  · rw [hf, lastFunction_concat, hnone, h.function]
    rfl
  · rw [hx, h.functions, functions_concat, hnone, Option.toList_none, List.append_nil]

/-- Behind the name of a function no scope is entered, and the function is the last one. -/
theorem Encloses.beginFunction (h : Encloses done s) (hzero : s.scopes.depth = 0)
    (hdefines : function? done token = some (type, token.text))
    (hs : t.scopes = (s.prepare .function token.text).scopes)
    (hf : t.function = (s.prepare .function token.text).function)
    (hx : t.program.symbols = s.program.symbols.add
      ((s.prepare .function token.text).declaration token.text .function type)) :
    Encloses (done ++ [token]) t := by
  have hstack := h.stack
  rw [hzero] at hstack
  refine ⟨?_, ?_, ?_⟩
  · rw [hs]
    show Symbol.globalScope :: s.scopes.saved = List.replicate s.scopes.depth _ ++ _
    rw [(List.cons.inj hstack).2, hzero]
    rfl
  · rw [hf, lastFunction_concat, hdefines]
    rfl
  · rw [hx, Symbol.Table.functions_add, h.functions, functions_concat, hdefines,
      List.append_assoc]
    rfl

theorem Encloses.step (h : Encloses done s) (hr : Recalls done s)
    (hdepth : Follows maxDepth done s) (hs : Scan.Step token called s t)
    (hname : recent? done 1 = some .fnWord → recent? done 0 = some .datatype ∧
      opened done = closed done ∧ (token.kind? = some .identifier ∨
        token.kind? = some .mainWord)) : Encloses (done ++ [token]) t := by
  have hdefines := hr.declaresFunction fun hfn => (hname hfn).1
  have hnone (hfn : recent? done 1 ≠ some .fnWord) : function? done token = none := if_neg hfn
  have hbracket (hb : token.opens ∨ token.closes) : function? done token = none := by
    refine hnone fun hfn => ?_
    obtain ⟨-, -, hk | hk⟩ := hname hfn <;> simp [not_bracket hk] at hb
  cases hs.effect with
  | opening ho _ he hf hx =>
    refine h.keep (hbracket (Or.inl ho)) hf (by rw [hx]) ?_
    rw [he.current, he.saved, h.stack, he.depth, List.replicate_succ, List.cons_append]
  | closing hc _ hl hf hx =>
    refine h.keep (hbracket (Or.inr hc)) hf (by rw [hx]) ?_
    have hstack := h.stack
    rw [hl.saved, hl.depth, List.replicate_succ, List.cons_append] at hstack
    exact (List.cons.inj hstack).2
  | @declaring kind type hk hd ht hscopes hf hx =>
    by_cases hfunction : kind = .function
    · subst hfunction
      have hfn := hdefines.mp hd
      obtain ⟨hlast, hclosed, -⟩ := hname hfn
      have hzero : s.scopes.depth = 0 := by
        have := hdepth.depth
        omega
      refine h.beginFunction hzero ?_ hscopes hf hx
      rw [function?, if_pos hfn, hr.typed? hlast ht]
    · have hfn : recent? done 1 ≠ some .fnWord := by
        rw [Ne, ← hdefines, hd]
        exact fun heq => hfunction (Option.some.inj heq)
      rw [Scan.State.prepare, if_neg hfunction] at hscopes hf hx
      refine h.keep (hnone hfn) hf ?_ (by rw [hscopes]; exact h.stack)
      rw [hx, Symbol.Table.functions_add]
      simp [Symbol.isFunction, Scan.State.declaration, Symbol.declared, hfunction]
  | still ho hc hscopes hf hd hm hx =>
    have hfn : recent? done 1 ≠ some .fnWord := by
      intro hfn
      have hfunction := hdefines.mpr hfn
      rcases (hname hfn).2.2 with hk | hk
      · rw [hd hk] at hfunction
        cases hfunction
      · exact hm hk hfunction
    refine h.keep (hnone hfn) hf ?_ (by rw [hscopes]; exact h.stack)
    rcases hx with hx | ⟨x, hliteral, hx⟩
    · rw [hx]
    · rw [hx, Symbol.Table.functions_add]
      simp [Symbol.isFunction, hliteral]

namespace Scan

theorem scanBefore_cons_eq_ok : scanBefore rest (token :: done) s = .ok () t ↔
    ∃ u, Step token (opensCall (done ++ rest)) s u ∧ scanBefore rest done u = .ok () t := by
  show (scanToken token _ >>= fun _ => scanBefore rest done) s = _ ↔ _
  rw [bind_eq_ok]
  constructor
  · rintro ⟨_, u, hu, hdone⟩
    exact ⟨u, scanToken_eq_ok.mp hu, hdone⟩
  · rintro ⟨u, hu, hdone⟩
    exact ⟨(), u, scanToken_eq_ok.mpr hu, hdone⟩

/-- A list is scanned in two parts, one behind the other. -/
theorem scanTokens_append : scanTokens (done ++ rest) s = .ok () t ↔
    ∃ u, scanBefore rest done s = .ok () u ∧ scanTokens rest u = .ok () t := by
  induction done generalizing s with
  | nil =>
    constructor
    · exact fun h => ⟨s, rfl, h⟩
    · rintro ⟨u, hu, h⟩
      rwa [(pure_eq_ok.mp hu).2] at h
  | cons token done ih =>
    rw [List.cons_append, scanTokens_cons_eq_ok]
    simp only [ih, scanBefore_cons_eq_ok]
    constructor
    · rintro ⟨u, hu, v, hv, hrest⟩
      exact ⟨v, ⟨u, hu, hv⟩, hrest⟩
    · rintro ⟨v, ⟨u, hu, hv⟩, hrest⟩
      exact ⟨u, hu, v, hv, hrest⟩

/-- What each of the tokens keeps holds behind them. -/
theorem scanBefore_induction {P : List Token → State → Prop}
    (hstep : ∀ done token after called u v, tokens = done ++ token :: after → P done u →
      Step token called u v → P (done ++ [token]) v)
    (hs : P [] s) (h : scanBefore rest tokens s = .ok () t) : P tokens t := by
  have hfrom (done after : List Token) (u : State) (heq : tokens = done ++ after) (hu : P done u)
      (hafter : scanBefore rest after u = .ok () t) : P tokens t := by
    induction after generalizing done u with
    | nil =>
      obtain ⟨-, rfl⟩ := pure_eq_ok.mp hafter
      rwa [heq, List.append_nil]
    | cons token after ih =>
      obtain ⟨v, hv, hafter⟩ := scanBefore_cons_eq_ok.mp hafter
      exact ih (done ++ [token]) v (by rw [heq, List.append_assoc]; rfl)
        (hstep _ _ _ _ _ _ heq hu hv) hafter
  exact hfrom [] tokens s rfl hs h

end Scan

/-- What is known in front of a token of a list whose functions stand outside of brackets. -/
structure Knows [Limits] (maxDepth : Nat) (done : List Token) (s : Scan.State) : Prop where
  ready : Scan.Ready s
  follows : Follows maxDepth done s
  recalls : Recalls done s
  encloses : Encloses done s

theorem Knows.step (h : Knows maxDepth done s) (hf : FunctionsOutside (done ++ token :: rest))
    (hs : Scan.Step token called s t) : Knows maxDepth (done ++ [token]) t :=
  ⟨h.ready.step hs, h.follows.step hs, h.recalls.step hs h.ready.1.indexed,
    h.encloses.step h.recalls h.follows hs hf.name⟩

theorem knows_begin {n maxSymbols maxLexemes : Nat} {symbols : Symbol.Table}
    (h : (Symbol.Table.empty maxSymbols).registerLibrary = (.ok n, symbols)) :
    Knows maxDepth [] (.begin settings maxDepth symbols (.empty maxLexemes)) :=
  ⟨ready_library h, follows_begin, recalls_begin, encloses_begin h⟩

/-- The current scope is that of the enclosing function. -/
theorem Knows.current (h : Knows maxDepth done s) : s.scopes.current = enclosing done := by
  have hstack := h.encloses.stack
  have hdepth := h.follows.depth
  unfold enclosing
  cases hzero : s.scopes.depth with
  | zero =>
    rw [hzero] at hstack hdepth
    rw [if_pos (by omega)]
    exact (List.cons.inj hstack).1
  | succ depth =>
    rw [hzero] at hstack hdepth
    rw [if_neg (by omega), ← h.encloses.function]
    exact (List.cons.inj hstack).1

/-- Functions have different names. -/
theorem Declaring.nodup_functions {p : Program} {pending : Option DataType}
    (h : Declaring p pending) (hfound : p.symbols.Found) :
    (p.symbols.functions.map (·.2)).Nodup := by
  rw [Symbol.Table.functions, List.map_map, List.Nodup, List.pairwise_map, List.pairwise_filter,
    List.pairwise_iff_getElem]
  intro i j hi hj hlt hx hy hname
  have hget {n : Nat} (hn : n < p.symbols.toList.length) :
      p.symbols.get? n = some p.symbols.toList[n] := by
    rw [Symbol.Table.get?_eq_getElem?, List.getElem?_eq_getElem hn]
  have heq := h.functions_eq hfound (hget hi) (hget hj) (beq_iff_eq.mp hx) (beq_iff_eq.mp hy) hname
  omega

theorem Knows.resolvesWithin (h : Knows maxDepth done s)
    (hf : FunctionsOutside (done ++ token :: rest)) (hs : Scan.Step token called s t)
    (hk : token.kind? = some .identifier) :
    ResolvesWithin t.program s.program.lexemes.size done token called := by
  obtain ⟨i, x, hl, hx, hname, hscope⟩ := hs.identifier h.ready.1.indexed hk
  refine ⟨i, x, hl, hx, hname, ?_⟩
  rw [← h.current]
  rcases hscope with hscope | ⟨hscope, hcalled | hfunction⟩
  · exact Or.inl hscope
  · exact Or.inr ⟨hcalled, hscope⟩
  · have hfn := (h.recalls.declaresFunction fun hfn => (hf.name hfn).1).mp hfunction
    left
    rw [h.current, enclosing, if_pos (hf.name hfn).2.1, hscope]

variable {maxSymbols maxLexemes n : Nat} {symbols : Symbol.Table} {metrics : Metrics}

theorem knows_before {before after : List Token}
    (hr : (Symbol.Table.empty maxSymbols).registerLibrary = (.ok n, symbols))
    (hf : FunctionsOutside (before ++ after))
    (hs : Scan.scanBefore after before (.begin settings maxDepth symbols (.empty maxLexemes)) =
      .ok () s) :
    Knows maxDepth before s := by
  refine Scan.scanBefore_induction (P := Knows maxDepth) ?_ (knows_begin hr) hs
  intro done token rest called u v hsplit hu hstep
  rw [hsplit, List.append_assoc, List.cons_append] at hf
  exact hu.step hf hstep

/-- The functions of the table are those of the library and those that the tokens define, and no
two of them have the same name. -/
theorem functions_of_scanTokens
    (hr : (Symbol.Table.empty maxSymbols).registerLibrary = (.ok n, symbols))
    (hf : FunctionsOutside tokens)
    (hs : Scan.scanTokens tokens (.begin settings maxDepth symbols (.empty maxLexemes)) =
      .ok () t) :
    t.program.symbols.functions = Symbol.Signature.functions ++ functions tokens ∧
      ((Symbol.Signature.functions ++ functions tokens).map (·.2)).Nodup := by
  rw [← List.append_nil tokens] at hf hs
  obtain ⟨u, hu, hlast⟩ := Scan.scanTokens_append.mp hs
  obtain ⟨-, rfl⟩ := Scan.pure_eq_ok.mp hlast
  have hfunctions := (knows_before hr hf hu).encloses.functions
  have hdeclaring := Scan.scanTokens_induction
    (P := fun u => Declaring u.program u.pendingType)
    (fun _ _ _ _ hu hstep => hstep.declaring hu) (declaring_library hr) hs
  refine ⟨hfunctions, ?_⟩
  rw [← hfunctions]
  exact hdeclaring.nodup_functions (((ready_library hr).grows hs).found (found_library hr))

/-- Where functions are defined outside of brackets, an accepted scan resolves names in the scope of
the enclosing function. -/
theorem scan_enclosing
    (h : (scan settings maxDepth tokens (empty maxSymbols maxLexemes)).result = .ok metrics)
    (hf : FunctionsOutside tokens) :
    ScopesEnclose settings maxDepth maxSymbols maxLexemes tokens := by
  obtain ⟨n, symbols, t, hr, hs, -, hscan⟩ := steps_of_scan h
  have hr : (Symbol.Table.empty maxSymbols).registerLibrary = (.ok n, symbols) := hr
  constructor
  · have hnodup := (functions_of_scanTokens hr hf hs).2
    rw [List.map_append] at hnodup
    exact (List.nodup_append.mp hnodup).2.1
  · rintro before token after rfl
    obtain ⟨u, hu, hafter⟩ := Scan.scanTokens_append.mp hs
    obtain ⟨v, hv, hrest⟩ := Scan.scanTokens_cons_eq_ok.mp hafter
    have hknown := knows_before hr hf hu
    have hgrows := (hknown.ready.step hv).grows hrest
    refine ⟨u, by rw [hr]; exact hu, hknown.encloses.functions, hknown.follows.depth,
      hknown.current, fun hk => ?_⟩
    rw [hscan]
    obtain ⟨i, x, hl, hx, hname, hscope⟩ := hknown.resolvesWithin hf hv hk
    exact ⟨i, x, hgrows.lexeme hl, hgrows.get? hx, hname, hscope⟩

end

attribute [local instance] Limits.development

/-- Two functions that each have an `a`. -/
def shadowed : List Token :=
  oneLine 1 ["fn", "i32", "f", "(", "i32", "a", ")", "\x7b", "a", ";", "\x7d"] ++
  oneLine 2 ["fn", "i32", "main", "(", "i32", "a", ")", "\x7b", "a", ";", "\x7d"]

theorem scopesEnclose_shadowed : FunctionsOutside shadowed ∧ ScopesEnclose {} 1 9 22 shadowed := by
  have hresult : (scan {} 1 shadowed (empty 9 22)).result = .ok
      { tokens := 22, lexemes := 22, symbols := 9, declarations := 4, maxScopeDepth := 1 } := by
    cbv
  have houtside : FunctionsOutside shadowed := by decide +kernel
  exact ⟨houtside, scan_enclosing hresult houtside⟩

end Program
end Ttm
