import Ttm.Limits
import Ttm.Proofs.Program.Image
import Ttm.Proofs.Program.Raise
import Ttm.Proofs.Program.Room

/-! Scans that find no room in the lexeme table. A token is one lexeme and a sign three more, so a
table with an entry for each token can be too small. -/
namespace Ttm.Program

open Lexeme (Kind)
open Source (Token)

namespace Scan

/-- The action ends for want of room in the lexeme table. -/
def RunsOut {α : Type} (a : Action α) (s : State) : Prop :=
  ∃ e t, a s = .error e t ∧ e.wantsLexeme

/-- A zero is in the symbol table, or there is room for one. -/
def HasZero (s : State) : Prop :=
  (s.program.symbols.lookupLiteral .i32 "0").isSome ∨
    s.program.symbols.size < s.program.symbols.capacity

variable {limits : Limits} {α β : Type} {a : Action α} {x : α} {s t u : State} {line n : Nat}
  {called : Bool} {token : Token} {tokens : List Token} {k : Kind}

theorem interns_of_hasZero (h : HasZero s) : ∃ index u, Interns .i32 "0" s index u ∧ HasZero u := by
  cases hl : s.program.symbols.lookupLiteral .i32 "0" with
  | some index => exact ⟨index, _, .reused hl, h⟩
  | none =>
    have hfree : s.program.symbols.size < s.program.symbols.capacity := by
      rcases h with h | h
      · rw [hl] at h
        cases h
      · exact h
    refine ⟨_, _, .added hl (Symbol.Table.refusal?_eq_none.mpr ⟨hfree, fun h => by cases h⟩),
      Or.inl ?_⟩
    show ((s.program.symbols.add (s.newLiteral .i32 "0")).lookupLiteral .i32 "0").isSome
    rw [Symbol.Table.lookupLiteral_add rfl, hl]
    rfl

/-- Tokens that take as much room as their number allows. -/
def signRow : Nat → List String
  | 0 => []
  | 1 => ["0"]
  | n + 2 => "=" :: "-" :: signRow n

theorem length_signRow : (signRow n).length = n := by
  fun_induction signRow with
  | case1 | case2 => rfl
  | case3 n ih => rw [List.length_cons, List.length_cons, ih]

theorem runsOut_emit {symbol : Option Nat} {f : Unit → Action β}
    (h : s.HasRoom 1 → RunsOut (f ()) (s.addLexeme ⟨k, line, symbol⟩)) :
    RunsOut (emit k line symbol >>= f) s := by
  by_cases room : s.HasRoom 1
  · obtain ⟨e, t, hfails, he⟩ := h room
    exact ⟨e, t, bind_eq_error.mpr (Or.inr ⟨(), _, emit_eq_ok.mpr ⟨room, rfl⟩, hfails⟩), he⟩
  · exact ⟨_, _, bind_eq_error.mpr (Or.inl (emit_eq_error.mpr ⟨room, rfl, rfl⟩)), rfl⟩

theorem runsOut_of_ok {f : α → Action β} (ha : a s = .ok x u) (h : RunsOut (f x) u) :
    RunsOut (a >>= f) s := by
  obtain ⟨e, t, hfails, he⟩ := h
  exact ⟨e, t, bind_eq_error.mpr (Or.inr ⟨x, u, ha, hfails⟩), he⟩

theorem RunsOut.bind {f : α → Action β} (h : RunsOut a s) : RunsOut (a >>= f) s := by
  obtain ⟨e, t, hfails, he⟩ := h
  exact ⟨e, t, bind_eq_error.mpr (Or.inl hfails), he⟩

theorem runsOut_cons (h : Step token (opensCall tokens) s u)
    (hrest : RunsOut (scanTokens tokens) u) : RunsOut (scanTokens (token :: tokens)) s :=
  runsOut_of_ok (f := fun _ => scanTokens tokens) (scanToken_eq_ok.mpr h) hrest

theorem runsOut_openSign (hzero : HasZero s) (room : ¬ s.HasRoom 3) :
    RunsOut (openSign line) s := by
  refine runsOut_emit fun _ => ?_
  have hzero' : HasZero (s.addLexeme ⟨.openParen, line, none⟩) := hzero
  obtain ⟨index, u, hi, -⟩ := interns_of_hasZero hzero'
  refine runsOut_of_ok (intern_eq_ok_iff.mpr hi) (runsOut_emit fun _ => runsOut_emit ?_)
  intro hroom
  rw [hasRoom_addLexeme, hi.hasRoom, hasRoom_addLexeme] at hroom
  exact absurd hroom room

theorem runsOut_sign (hk : Kind.ofText? token.text = some .minus) (hs : s.expectsOperand)
    (hzero : HasZero s) (room : ¬ s.HasRoom 3) : RunsOut (scanToken token called) s := by
  obtain ⟨e, t, hfails, he⟩ : RunsOut (openSign token.line) s := runsOut_openSign hzero room
  refine ⟨e, t, ?_, he⟩
  unfold scanToken
  rw [hk]
  show scanMinus token.line s = _
  rw [scanMinus, get_bind, if_pos hs, hfails]

/-- A zero behind a sign takes two entries. -/
theorem runsOut_zero (hzero : HasZero s) (hopen : s.signOpen) (room : ¬ s.HasRoom 2) :
    RunsOut (scanLiteral .i32 "0" line) s := by
  obtain ⟨index, u, hi, -⟩ := interns_of_hasZero hzero
  refine runsOut_of_ok (intern_eq_ok_iff.mpr hi) (runsOut_emit fun _ => ?_)
  have hopen' : (u.addLexeme ⟨.literal, line, some index⟩).signOpen = true :=
    hi.sameTable.signOpen.trans hopen
  obtain ⟨e, t, hfails, he⟩ : RunsOut (closeSign line)
      (u.addLexeme ⟨.literal, line, some index⟩) := by
    refine runsOut_emit fun hroom => ?_
    rw [hasRoom_addLexeme, hi.hasRoom] at hroom
    exact absurd hroom room
  refine ⟨e, t, ?_, he⟩
  rw [get_bind, if_pos hopen', hfails]

/-- A row of signs fills two entries a token. -/
theorem runsOut_signRow (n : Nat) (hzero : HasZero s) (hopen : n = 1 → s.signOpen)
    (hroom : s.HasRoom 0) (room : ¬ s.HasRoom (2 * n)) :
    RunsOut (scanTokens (oneLine line (signRow n))) s := by
  -- each sign is opened before the last one is closed, so its bracket is never paid for
  fun_induction signRow n generalizing s with
  | case1 => exact absurd hroom room
  | case2 =>
    have hk : Kind.ofText? "0" = some .integer := rfl
    have hvalue : Lexeme.decimal? maxInteger "0".toList = some 0 := by decide
    have hscan : scanToken ⟨"0", line⟩ (opensCall []) = scanLiteral .i32 "0" line := by
      unfold scanToken
      rw [hk]
      show scanInteger "0" line = _
      unfold scanInteger
      rw [hvalue]
      rfl
    have h : RunsOut (scanLiteral .i32 "0" line) s := runsOut_zero hzero (hopen rfl) room
    rw [← hscan] at h
    exact h.bind
  | case3 n ih =>
    have hassign : Kind.ofText? "=" = some .assign := rfl
    have hminus : Kind.ofText? "-" = some .minus := rfl
    show RunsOut (scanToken ⟨"=", line⟩ _ >>= fun _ => scanTokens _) s
    rw [scanToken_of_plain hassign rfl]
    refine runsOut_emit fun _ => ?_
    generalize hv : s.addLexeme ⟨.assign, line, none⟩ = v
    have hroom_v (m : Nat) : v.HasRoom m ↔ s.HasRoom (m + 1) := by rw [← hv, hasRoom_addLexeme]
    have hzero_v : HasZero v := by
      rw [← hv]
      exact hzero
    have hnext : v.expectsOperand := by
      rw [← hv, expectsOperand_addLexeme]
      rfl
    by_cases hthree : v.HasRoom 3
    · have hzero_open : HasZero (v.addLexeme ⟨.openParen, line, none⟩) := hzero_v
      obtain ⟨index, u, hi, hzero_u⟩ := interns_of_hasZero hzero_open
      refine runsOut_cons (.sign hminus hnext hthree hi) ?_
      have hroom_u (m : Nat) : ((u.addLexeme ⟨.literal, line, some index⟩).addLexeme
          ⟨.minus, line, none⟩).HasRoom m ↔ v.HasRoom (m + 3) := by
        rw [hasRoom_addLexeme, hasRoom_addLexeme, hi.hasRoom, hasRoom_addLexeme]
      refine ih hzero_u (fun _ => rfl) ((hroom_u 0).mpr hthree) ?_
      intro hdouble
      exact room ((hroom_v (2 * n + 3)).mp ((hroom_u (2 * n)).mp hdouble))
    · exact (runsOut_sign hminus hnext hzero_v hthree).bind

end Scan

section

variable {limits : Limits} {settings : ScanSettings} {maxDepth maxSymbols maxLexemes n : Nat}
  {tokens : List Token} {profile : String}

/-- The scan ends for want of room in the lexeme table. -/
def Overflows [Limits] (settings : ScanSettings) (maxDepth : Nat) (tokens : List Token)
    (p : Program) : Prop :=
  ∃ e, (scan settings maxDepth tokens p).result = .error e ∧ e.wantsLexeme

/-- Only tokens can want a lexeme. -/
theorem overflows_iff :
    Overflows settings maxDepth tokens (empty maxSymbols maxLexemes) ↔ ∃ n symbols,
      (Symbol.Table.empty maxSymbols).registerLibrary = (.ok n, symbols) ∧
        Scan.RunsOut (Scan.scanTokens tokens)
          (.begin settings maxDepth symbols (.empty maxLexemes)) := by
  constructor
  · rintro ⟨e, h, he⟩
    rcases failure_of_scan h with ⟨cause, rfl⟩ | ⟨n, symbols, t, hr, hrun⟩ |
      ⟨n, symbols, t, -, -, hcheck⟩
    · cases cause <;> cases he
    · exact ⟨n, symbols, hr, e, t, hrun, he⟩
    · have hline := Scan.line_checkStructure hcheck
      unfold Error.wantsLexeme at he
      split at he <;> cases he
      cases hline
  · rintro ⟨n, symbols, hr, e, t, hrun, he⟩
    refine ⟨e, ?_, he⟩
    have hrun : Scan.run tokens
        (.begin settings maxDepth (.empty maxSymbols) (.empty maxLexemes)) = .error e t :=
      Scan.bind_eq_error.mpr <| Or.inr ⟨(), _, Scan.registerLibrary_eq_ok.mpr ⟨n, symbols, hr, rfl⟩,
        Scan.bind_eq_error.mpr (Or.inl hrun)⟩
    rw [scan_of_run_error (p := empty maxSymbols maxLexemes) hrun]

theorem Overflows.lt {held : Scan.State → Nat} {cost extra : Nat}
    (h : Overflows settings maxDepth tokens (empty maxSymbols maxLexemes))
    (hc : Scan.Charges held cost extra)
    (hheld : ∀ symbols, held (.begin settings maxDepth symbols (.empty maxLexemes)) = 0) :
    maxLexemes < cost * tokens.length + extra * signs false tokens := by
  obtain ⟨n, symbols, hr, e, t, hrun, he⟩ := overflows_iff.mp h
  have hroom := hc.not_hasRoom (ready_library hr) hrun he
  rw [hheld] at hroom
  simpa [Scan.State.HasRoom, Scan.State.begin, Lexeme.Table.empty, Lexeme.Table.size,
    Scan.State.expectsOperand, Lexeme.Table.last?] using hroom

theorem overflows_signRow (hsymbols : 6 ≤ maxSymbols) (hn : 2 ≤ n) (h : maxLexemes < 2 * n) :
    Overflows settings maxDepth (oneLine 1 (Scan.signRow n)) (empty maxSymbols maxLexemes) := by
  obtain ⟨symbols, m, hr, hsize, hcapacity, -⟩ := exists_library (show 5 ≤ maxSymbols by omega)
  refine overflows_iff.mpr ⟨m, symbols, hr, Scan.runsOut_signRow n (Or.inr ?_) (by omega) ?_ ?_⟩
  · show symbols.size < symbols.capacity
    omega
  · exact Nat.zero_le _
  · simp [Scan.State.HasRoom, Scan.State.begin, Lexeme.Table.empty, Lexeme.Table.size]
    omega

/-- The first token is no sign. -/
theorem two_le_length (h : 0 < signs false tokens) : 2 ≤ tokens.length := by
  match tokens with
  | [] => exact absurd h (Nat.lt_irrefl 0)
  | [_] => exact absurd h (Nat.lt_irrefl 0)
  | _ :: _ :: rest => exact Nat.le_add_left 2 rest.length

theorem covers_of_brokenRule? (h : limits.brokenRule? profile = none) :
    limits.maxTokenCount ≤ limits.maxLexemes := by
  have hmeets := List.find?_eq_none.mp h .lexemes (by decide)
  simpa [Limits.meets] using hmeets

/-- Limits may be accepted and yet have too few lexemes for their tokens. A stream overflows the
lexeme table by its signs only, each of which takes three entries more than its tokens, and there is
such a stream just where the limits allow less than two lexemes for each of two tokens or more. -/
theorem limits_overflow (limits : Limits) (profile : String)
    (h : limits.brokenRule? profile = none) :
    (∀ settings maxDepth maxSymbols tokens, tokens.length ≤ limits.maxTokenCount →
      Overflows settings maxDepth tokens (empty maxSymbols limits.maxLexemes) →
        0 < signs false tokens ∧
          limits.maxLexemes < tokens.length + 3 * signs false tokens) ∧
    ∀ settings maxDepth maxSymbols, 6 ≤ maxSymbols →
      ((∃ tokens : List Token, tokens.length ≤ limits.maxTokenCount ∧
        Overflows settings maxDepth tokens (empty maxSymbols limits.maxLexemes)) ↔
          2 ≤ limits.maxTokenCount ∧ limits.maxLexemes < 2 * limits.maxTokenCount) := by
  have hcover := covers_of_brokenRule? h
  have hsigned (settings : ScanSettings) (maxDepth maxSymbols : Nat) (tokens : List Token)
      (hlength : tokens.length ≤ limits.maxTokenCount)
      (hover : Overflows settings maxDepth tokens (empty maxSymbols limits.maxLexemes)) :
      0 < signs false tokens ∧ limits.maxLexemes < tokens.length + 3 * signs false tokens := by
    have hlt := hover.lt Scan.charges_signOpen fun _ => rfl
    omega
  refine ⟨hsigned, fun settings maxDepth maxSymbols hsymbols => ⟨?_, ?_⟩⟩
  · rintro ⟨tokens, hlength, hover⟩
    have hlt := hover.lt Scan.charges_expectsOperand fun _ => rfl
    obtain ⟨hsign, -⟩ := hsigned settings maxDepth maxSymbols tokens hlength hover
    have htwo := two_le_length hsign
    omega
  · rintro ⟨htokens, hlexemes⟩
    refine ⟨oneLine 1 (Scan.signRow limits.maxTokenCount), ?_,
      overflows_signRow hsymbols htokens hlexemes⟩
    rw [oneLine, List.length_map, Scan.length_signRow]

end

/-- As many lexemes as tokens. -/
@[reducible]
def sixEach : Limits := { Limits.development with maxTokenCount := 6, maxLexemes := 6 }

attribute [local instance] sixEach

theorem overflows_signedLiteral : Overflows {} 64 signedLiteral (empty 65536 6) := by
  obtain ⟨u, n, hu, hsize, hcapacity, hmain, -⟩ := exists_library (show 5 ≤ 65536 by decide)
  have hmainRoom : u.refusal? signedLiteralMain = none :=
    Symbol.Table.refusal?_eq_none.mpr ⟨by omega, fun _ => hmain⟩
  have room {m n : Nat} (h : Nat.ble m n = true) : m ≤ n := Nat.le_of_ble_eq_true h
  refine overflows_iff.mpr ⟨n, u, hu, ?_⟩
  refine Scan.runsOut_cons (.plain (k := .fnWord) (by decide) rfl (room rfl)) ?_
  refine Scan.runsOut_cons (.datatype (k := .i32) (by decide) rfl (room rfl)) ?_
  refine Scan.runsOut_cons (.refer (.mainDeclared (by decide) hmain rfl rfl hmainRoom)
    (.plain rfl (room rfl))) ?_
  refine Scan.runsOut_cons (.plain (k := .retWord) (by decide) rfl (room rfl)) ?_
  refine Scan.RunsOut.bind (Scan.runsOut_sign (by decide) rfl (Or.inr ?_) ?_)
  · show (u.add signedLiteralMain).size < (u.add signedLiteralMain).capacity
    rw [Symbol.Table.size_add, Symbol.Table.capacity_add]
    omega
  · show ¬ 4 + 3 ≤ 6
    decide

/-- Six tokens with a sign overflow the lexeme table of limits that are accepted. -/
theorem limits_overflow_signedLiteral : sixEach.brokenRule? "development" = none ∧
    signedLiteral.length = sixEach.maxTokenCount ∧
    Overflows {} 64 signedLiteral (empty 65536 sixEach.maxLexemes) ∧
    0 < signs false signedLiteral :=
  ⟨by decide, rfl, overflows_signedLiteral,
    ((limits_overflow sixEach "development" (by decide)).1 {} 64 65536 signedLiteral (Nat.le_refl 6)
      overflows_signedLiteral).1⟩

end Ttm.Program
