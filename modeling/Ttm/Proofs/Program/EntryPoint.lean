import Ttm.Proofs.Program.Enclosing

/-!
The entry point of a program. It is declared once, by the first `main` behind `fn` and a datatype,
and every other `main` means the same function.
-/
namespace Ttm.Program

open Lexeme (Kind)
open Source (Token)

/-- The entry point is symbol `i`, declared by the `fn` at `q`, and the only one of its name. -/
structure EntryPoint (p : Program) (i q : Nat) : Prop where
  symbol : p.symbols.get? i =
    some (.declared Kind.mainWord.text Symbol.globalScope (q + 2) .i32 .function)
  keyword : p.lexemes.kinds[q]? = some .fnWord
  stands : p.lexemes.kinds[q + 2]? = some .mainWord
  unique : ∀ j x, p.symbols.get? j = some x → x.name = Kind.mainWord.text → j = i
  meant : ∀ l ∈ p.lexemes.toList, l.kind = .mainWord → l.symbol = some i

/-- What carries the name of the entry point is declared as the entry point by a `main`. -/
def MainNamed (p : Program) : Prop :=
  ∀ i x, p.symbols.get? i = some x → x.name = Kind.mainWord.text →
    ∃ n, x = .declared Kind.mainWord.text Symbol.globalScope n .i32 .function ∧
      p.lexemes.kinds[n]? = some .mainWord

/-- These three tokens, one behind the other, declare the entry point. -/
structure DeclaresMain (fn type main : Token) : Prop where
  keyword : fn.text = "fn"
  type : type.text = "i32" ∨ type.text = "str"
  name : main.text = "main"

/-- The library and the tokens, without the check of the whole program. -/
def Scan.enterTokens [Limits] (tokens : List Token) : Scan.Action Unit := do
  registerLibrary (firstLine tokens)
  scanTokens tokens

/-- The error that the library or one of the tokens raises. -/
def raised? [Limits] (settings : ScanSettings) (maxDepth : Nat) (tokens : List Token)
    (p : Program) : Option Error :=
  match Scan.enterTokens tokens (.begin settings maxDepth p.symbols p.lexemes) with
  | .ok _ _ => none
  | .error e _ => some e

section

variable {limits : Limits} {settings : ScanSettings} {p : Program} {l : Lexeme} {x : Symbol}
  {k : Kind} {i n index line maxDepth : Nat} {s t u : Scan.State} {token : Token} {called : Bool}
  {done rest tokens : List Token} {e : Error}

theorem MainNamed.addLexeme (h : MainNamed p) : MainNamed (p.addLexeme l) := by
  intro i x hx hname
  obtain ⟨n, hn, hk⟩ := h i x hx hname
  exact ⟨n, hn, getElem?_kinds_addLexeme hk⟩

theorem MainNamed.addSymbol (h : MainNamed p) (hx : x.name ≠ Kind.mainWord.text) :
    MainNamed (p.addSymbol x) := by
  intro i y hy hname
  rcases Symbol.Table.get?_add_eq_some hy with hy | ⟨-, rfl⟩
  · exact h i y hy hname
  · exact absurd hname hx

theorem MainNamed.declare (h : MainNamed p) {symbol : Option Nat} :
    MainNamed ((p.addSymbol (.declared Kind.mainWord.text Symbol.globalScope p.lexemes.size
      .i32 .function)).addLexeme ⟨.mainWord, line, symbol⟩) := by
  intro i y hy hname
  rcases Symbol.Table.get?_add_eq_some hy with hy | ⟨-, rfl⟩
  · obtain ⟨n, hn, hk⟩ := h i y hy hname
    exact ⟨n, hn, getElem?_kinds_addLexeme hk⟩
  · refine ⟨p.lexemes.size, rfl, ?_⟩
    rw [kinds_addLexeme]
    exact Lexeme.getElem?_concat.mpr (Or.inr ⟨Lexeme.Table.length_kinds.symm, rfl⟩)

/-- Every `main` refers to a global function of its name. -/
theorem Linked.main (h : Linked p) (hl : l ∈ p.lexemes.toList) (hk : l.kind = .mainWord) :
    ∃ i x, l.symbol = some i ∧ p.symbols.get? i = some x ∧ x.name = Kind.mainWord.text ∧
      x.scope = Symbol.globalScope ∧ x.kind = .function := by
  cases h.lexemes l hl with
  | bare hnot =>
    obtain rfl : _ = Kind.mainWord := hk
    exact absurd (by decide) hnot
  | pointing hx hs =>
    obtain rfl : _ = Kind.mainWord := hk
    exact ⟨_, _, rfl, hx, hs⟩

namespace Scan

variable {type : DataType} {value : String}

theorem Interns.mainNamed (hi : Interns type value s index t) (h : MainNamed s.program) :
    MainNamed t.program := by
  cases hi with
  | reused => exact h
  | added => exact h.addSymbol Symbol.name_literal_ne

/-- Only a `main` behind `fn` and `i32` declares the entry point. -/
theorem Resolves.mainNamed (hr : Resolves token called s k index u)
    (h : MainNamed s.program) (line : Nat) :
    MainNamed (u.addLexeme ⟨k, line, some index⟩).program := by
  cases hr with
  | found | main => exact h.addLexeme
  | declared hk =>
    show MainNamed (Program.addLexeme _ _)
    rw [addDeclaration_prepare]
    exact (h.addSymbol (ne_main_of_identifier hk)).addLexeme
  | mainDeclared => exact h.declare
  | literal hv hi => exact (hi.mainNamed h).addLexeme

theorem Step.mainNamed (hs : Step token called s t) (h : MainNamed s.program) :
    MainNamed t.program := by
  cases hs with
  | refer hr hw =>
    have hr := hr.mainNamed h token.line
    cases hw with
    | plain => exact hr
    | closing => exact hr.addLexeme
  | sign hk he room hi =>
    have hopen : MainNamed (s.addLexeme ⟨.openParen, token.line, none⟩).program := h.addLexeme
    exact (hi.mainNamed hopen).addLexeme.addLexeme
  | datatype | minus | enter | leave | plain => exact h.addLexeme

/-- A `main` in the lexeme table comes from a token. -/
theorem Step.mem_kinds_main (hs : Step token called s t) (hi : s.program.symbols.Indexed) :
    .mainWord ∈ t.program.lexemes.kinds ↔
      .mainWord ∈ s.program.lexemes.kinds ∨ token.kind? = some .mainWord := by
  obtain ⟨b, hb⟩ := hs.leaves hi
  have hall : .mainWord ∈ b.all.map (·.kind) ↔ b.lexeme.kind = .mainWord := by
    cases hb.writes <;> simp [Piece.all, eq_comm]
  rw [hb.kind, Option.some.injEq, ← hall, Lexeme.Table.kinds, hb.lexemes, List.map_append,
    List.mem_append]
  rfl

/-- What is known between two tokens, of the entry point and of those before. -/
structure Watches [Limits] (done : List Token) (s : State) : Prop where
  ready : Ready s
  declaring : Declaring s.program s.pendingType
  named : MainNamed s.program
  recalls : Recalls done s
  main : .mainWord ∈ s.program.lexemes.kinds ↔ ∃ token ∈ done, token.kind? = some .mainWord

theorem Watches.step (h : Watches done s) (hs : Step token called s t) :
    Watches (done ++ [token]) t := by
  refine ⟨h.ready.step hs, hs.declaring h.declaring, hs.mainNamed h.named,
    h.recalls.step hs h.ready.1.indexed, ?_⟩
  rw [hs.mem_kinds_main h.ready.1.indexed, h.main]
  simp [or_and_right, exists_or]

theorem Watches.run (h : Watches [] s) (hrun : scanTokens tokens s = .ok () t) :
    Watches tokens t :=
  scanTokens_history (P := fun done _ => Watches done)
    (fun _ _ _ _ _ hu hstep _ => hu.step hstep) h hrun

theorem watches_begin {maxSymbols maxLexemes : Nat} {symbols : Symbol.Table}
    (h : (Symbol.Table.empty maxSymbols).registerLibrary = (.ok n, symbols)) :
    Watches [] (.begin settings maxDepth symbols (.empty maxLexemes)) := by
  refine ⟨ready_library h, declaring_library h, fun i x hx hname => ?_, recalls_begin, ?_⟩
  · have hall : ∀ x ∈ Symbol.Signature.library, x.name ≠ Kind.mainWord.text := by decide
    exact absurd hname (hall x (Symbol.Table.mem_library h hx))
  · simp [State.begin, Lexeme.Table.kinds, Lexeme.Table.empty, Lexeme.Table.toList]

/-- Where no call is cut, tokens are scanned in two parts, and the first failure is the one. -/
theorem scanTokens_append_eq (hcall : opensCall rest = false) :
    scanTokens (done ++ rest) = (scanTokens done >>= fun _ => scanTokens rest) := by
  induction done with
  | nil => rfl
  | cons token done ih =>
    have hnext : opensCall (done ++ rest) = opensCall done := by
      cases done with
      | nil => exact hcall
      | cons next done => rfl
    rw [List.cons_append]
    show (scanToken token (opensCall (done ++ rest)) >>= fun _ => scanTokens (done ++ rest)) =
      ((scanToken token (opensCall done) >>= fun _ => scanTokens done) >>= fun _ => scanTokens rest)
    rw [ih, hnext, bind_assoc]

/-- A second declaration of the entry point fails at its `main`. -/
theorem Watches.duplicateMain (h : Watches done s) (hfound : s.program.symbols.Found)
    (hmain : ∃ token ∈ done, token.kind? = some .mainWord)
    (hkeyword : recent? done 1 = some .fnWord) (htype : recent? done 0 = some .datatype)
    (htoken : token.text = Kind.mainWord.text) :
    scanTokens (token :: rest) s = .error (.duplicateMain token.line)
      (s.note (.failed (.duplicateMain token.line))) := by
  have hdeclares : s.program.lexemes.declaresFunction := by
    rw [Lexeme.Table.declaresFunction, h.recalls.both _ _ (by decide) (by decide) hkeyword htype]
    rfl
  obtain ⟨l, hl, hk⟩ := List.mem_map.mp (h.main.mpr hmain)
  obtain ⟨i, x, -, hx, hname, hscope, hfunction⟩ := h.ready.1.main hl hk
  have hlookup : s.program.symbols.lookup Symbol.globalScope Kind.mainWord.text = some i := by
    rw [← hname, ← hscope]
    refine hfound i x hx ?_
    simp [Symbol.literalKey?, Symbol.isLiteral, hfunction]
  have hfixed : Kind.ofText? token.text = some .mainWord := by
    rw [htoken]
    rfl
  refine bind_eq_error.mpr (Or.inl ?_)
  simp only [scanToken, hfixed, scanMain, get_bind, hlookup, hdeclares, if_true, raise_bind]

end Scan

theorem firstLine_append (hne : done ≠ []) :
    Scan.firstLine (done ++ rest) = Scan.firstLine done := by
  cases done with
  | nil => exact absurd rfl hne
  | cons => rfl

/-- What the library or one of the first tokens raises ends the scan. -/
theorem result_of_raised (hne : done ≠ []) (hcall : Scan.opensCall rest = false)
    (h : raised? settings maxDepth done p = some e) :
    (scan settings maxDepth (done ++ rest) p).result = .error e := by
  unfold raised? at h
  split at h
  · cases h
  · next t hraised =>
    cases h
    refine congrArg Scanned.result (scan_of_run_error (t := t) ?_)
    rw [Scan.run, firstLine_append hne, Scan.scanTokens_append_eq hcall]
    rcases Scan.bind_eq_error.mp hraised with hlibrary | ⟨_, u, hu, htokens⟩
    · exact Scan.bind_eq_error.mpr (Or.inl hlibrary)
    · refine Scan.bind_eq_error.mpr (Or.inr ⟨_, u, hu, ?_⟩)
      exact Scan.bind_eq_error.mpr (Or.inl (Scan.bind_eq_error.mpr (Or.inl htokens)))

/-- An error behind tokens that were accepted is that of the scan. -/
theorem result_of_scanTokens {n : Nat} {symbols : Symbol.Table}
    (hr : p.symbols.registerLibrary = (.ok n, symbols))
    (hdone : Scan.scanTokens done (.begin settings maxDepth symbols p.lexemes) = .ok () u)
    (hcall : Scan.opensCall rest = false) (hrest : Scan.scanTokens rest u = .error e t) :
    (scan settings maxDepth (done ++ rest) p).result = .error e := by
  refine congrArg Scanned.result (scan_of_run_error (t := t) ?_)
  rw [Scan.run, Scan.scanTokens_append_eq hcall]
  have hlibrary : Scan.registerLibrary (Scan.firstLine (done ++ rest))
      (.begin settings maxDepth p.symbols p.lexemes) =
        .ok () (.begin settings maxDepth symbols p.lexemes) :=
    Scan.registerLibrary_eq_ok.mpr ⟨n, symbols, hr, rfl⟩
  refine Scan.bind_eq_error.mpr (Or.inr ⟨_, _, hlibrary, Scan.bind_eq_error.mpr (Or.inl ?_)⟩)
  exact Scan.bind_eq_error.mpr (Or.inr ⟨_, u, hdone, hrest⟩)

/-- Where the first tokens raise nothing, an error in the rest is that of the scan. -/
theorem result_of_not_raised (hcall : Scan.opensCall rest = false)
    (h : raised? settings maxDepth done p = none) :
    ∃ n symbols u, p.symbols.registerLibrary = (.ok n, symbols) ∧
      Scan.scanTokens done (.begin settings maxDepth symbols p.lexemes) = .ok () u ∧
      ∀ e t, Scan.scanTokens rest u = .error e t →
        (scan settings maxDepth (done ++ rest) p).result = .error e := by
  unfold raised? at h
  split at h
  case h_2 => cases h
  next u hraised =>
  obtain ⟨_, v, hv, htokens⟩ := Scan.bind_eq_ok.mp hraised
  obtain ⟨n, symbols, hr, rfl⟩ := Scan.registerLibrary_eq_ok.mp hv
  exact ⟨n, symbols, u, hr, htokens, fun e t => result_of_scanTokens hr htokens hcall⟩

variable {maxSymbols maxLexemes : Nat} {metrics : Metrics} {fn type main : Token}

theorem kind?_eq_main : token.kind? = some .mainWord ↔ token.text = Kind.mainWord.text := by
  rw [← Lexeme.ofText?_eq_fixed (by decide), Token.kind?]
  cases h : Kind.ofText? token.text with
  | none => simp
  | some k =>
    have hmem := Scan.mem_of_ofText? h
    revert hmem
    cases k <;> decide

/-- The entry point of what is known to have one. -/
theorem Scan.Watches.entryPoint (h : Scan.Watches done s) (hfound : s.program.symbols.Found)
    (hmain : .mainWord ∈ s.program.lexemes.kinds) : ∃ i q, EntryPoint s.program i q := by
  obtain ⟨l, hl, hk⟩ := List.mem_map.mp hmain
  obtain ⟨i, x, -, hx, hname, -⟩ := h.ready.1.main hl hk
  obtain ⟨n, rfl, hn⟩ := h.named i x hx hname
  obtain ⟨q, rfl, hq, -⟩ := h.declaring.declared i _ .fnWord n hx rfl rfl
  have hunique (j : Nat) (y : Symbol) (hy : s.program.symbols.get? j = some y)
      (hyname : y.name = Kind.mainWord.text) : j = i := by
    obtain ⟨m, rfl, -⟩ := h.named j y hy hyname
    exact h.declaring.functions_eq hfound hy hx rfl rfl rfl
  refine ⟨i, q, hx, hq, hn, hunique, fun m hm hmk => ?_⟩
  obtain ⟨j, y, hj, hy, hyname, -⟩ := h.ready.1.main hm hmk
  rw [hj, hunique j y hy hyname]

theorem DeclaresMain.recent? (h : DeclaresMain fn type main) (done : List Token) :
    Program.recent? (done ++ [fn, type]) 1 = some .fnWord ∧
      Program.recent? (done ++ [fn, type]) 0 = some .datatype := by
  have hsplit : done ++ [fn, type] = (done ++ [fn]) ++ [type] := by simp
  rw [hsplit, recent?_concat_succ, recent?_concat, recent?_concat, Token.kind?, h.keyword,
    Token.kind?]
  refine ⟨rfl, ?_⟩
  rcases h.type with htype | htype <;> rw [htype] <;> rfl

/-- The entry point is declared once, and means the same wherever it stands. Without one a program
is not accepted; declared again it fails at the second `main`, if nothing fails before. -/
theorem scan_entryPoint (limits : Limits) (settings : ScanSettings)
    (maxDepth maxSymbols maxLexemes : Nat) :
    (∀ tokens metrics,
      (scan settings maxDepth tokens (empty maxSymbols maxLexemes)).result = .ok metrics →
        (∃ i q,
          EntryPoint (scan settings maxDepth tokens (empty maxSymbols maxLexemes)).program i q) ∧
          ∃ token ∈ tokens, token.text = "main") ∧
    ∀ before fn type main between fn' type' main' after,
      DeclaresMain fn type main → DeclaresMain fn' type' main' →
        (scan settings maxDepth
          (before ++ [fn, type, main] ++ between ++ [fn', type'] ++ main' :: after)
          (empty maxSymbols maxLexemes)).result =
            .error ((raised? settings maxDepth
              (before ++ [fn, type, main] ++ between ++ [fn', type'])
              (empty maxSymbols maxLexemes)).getD (.duplicateMain main'.line)) := by
  constructor
  · intro tokens metrics h
    obtain ⟨n, symbols, t, hr, hs, hc, hscan⟩ := steps_of_scan h
    rw [hscan]
    have hfound := ((ready_library hr).grows hs).found (found_library hr)
    have hwatches := (Scan.watches_begin hr).run hs
    have hmain := (Scan.checkStructure_eq_ok.mp hc).1
    obtain ⟨token, htoken, hk⟩ := hwatches.main.mp hmain
    exact ⟨hwatches.entryPoint hfound hmain, token, htoken, kind?_eq_main.mp hk⟩
  · intro before fn type main between fn' type' main' after hfirst hsecond
    generalize hdone : before ++ [fn, type, main] ++ between = done
    have hcall : Scan.opensCall (main' :: after) = false := by
      simp [Scan.opensCall, hsecond.name]
    cases hraised : raised? settings maxDepth (done ++ [fn', type'])
      (empty maxSymbols maxLexemes) with
    | some e => exact result_of_raised (by simp) hcall hraised
    | none =>
      obtain ⟨n, symbols, u, hr, hs, herror⟩ := result_of_not_raised hcall hraised
      have hfound := ((ready_library hr).grows hs).found (found_library hr)
      have hwatches := (Scan.watches_begin hr).run hs
      obtain ⟨hkeyword, htype⟩ := hsecond.recent? done
      refine herror _ _ (hwatches.duplicateMain hfound ⟨main, ?_, ?_⟩ hkeyword htype hsecond.name)
      · simp [← hdone]
      · exact kind?_eq_main.mpr hfirst.name

end

attribute [local instance] Limits.development

/-- A second entry point, behind a `main` that means the first. -/
def mainAgain : List Token :=
  oneLine 1 ["fn", "i32", "main", "let", "i32", "main"] ++ oneLine 2 ["fn", "str", "main", "("]

theorem scan_entryPoint_mainAgain :
    (∃ i q, EntryPoint (scan {} 1 stray (empty 7 12)).program i q) ∧
      (scan {} 0 mainAgain (empty 6 9)).result = .error (.duplicateMain 2) := by
  have hstray : (scan {} 1 stray (empty 7 12)).result =
      .ok { tokens := 12, lexemes := 12, symbols := 7, declarations := 2 } := by
    cbv
  have hraised : raised? {} 0 (oneLine 1 ["fn", "i32", "main", "let", "i32", "main"] ++
      oneLine 2 ["fn", "str"]) (empty 6 9) = none := by
    cbv
  have hagain : (scan {} 0 mainAgain (empty 6 9)).result =
      .error ((raised? {} 0 (oneLine 1 ["fn", "i32", "main", "let", "i32", "main"] ++
        oneLine 2 ["fn", "str"]) (empty 6 9)).getD (.duplicateMain 2)) :=
    (scan_entryPoint .development {} 0 6 9).2 [] ⟨"fn", 1⟩ ⟨"i32", 1⟩ ⟨"main", 1⟩
      (oneLine 1 ["let", "i32", "main"]) ⟨"fn", 2⟩ ⟨"str", 2⟩ ⟨"main", 2⟩ [⟨"(", 2⟩]
      ⟨rfl, Or.inl rfl, rfl⟩ ⟨rfl, Or.inr rfl, rfl⟩
  rw [hraised] at hagain
  exact ⟨((scan_entryPoint .development {} 1 7 12).1 stray _ hstray).1, hagain⟩

end Ttm.Program
