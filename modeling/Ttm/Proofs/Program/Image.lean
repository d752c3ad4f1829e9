import Ttm.Proofs.Program.Bracket

/-! The lexeme table as an image of the tokens: a lexeme for each token, and three for each sign. -/
namespace Ttm

open Lexeme (Kind SignAt SignEnds SignNext SignWaits SignsApart)
open Source (Token)

namespace Program

/-- What stands around the lexeme at `q`: in front of a sign a bracket and a zero, behind an operand
for which a sign waits the bracket that ends it, and nothing else. -/
structure Surrounds (symbols : Symbol.Table) (own : List Lexeme) (q : Nat) (b : Piece) : Prop where
  opening : SignAt own q → ∃ i x,
    b.before = [⟨.openParen, b.lexeme.line, none⟩, ⟨.literal, b.lexeme.line, some i⟩] ∧
      symbols.get? i = some x ∧ x.literalKey? = some (.i32, "0")
  unopened : ¬ SignAt own q → b.before = []
  closing : (∃ s, SignEnds symbols own s q) → b.after = [⟨.closeParen, b.lexeme.line, none⟩]
  unclosed : (¬ ∃ s, SignEnds symbols own s q) → b.after = []

/-- The lexeme table is a row of pieces. Each token has its lexeme, of its kind and on its line;
three more stand around each sign; and every sign ends, before there is another one. -/
structure Image [Limits] (p : Program) (metrics : Metrics) (tokens : List Token)
    (pieces : List Piece) : Prop where
  lexemes : p.lexemes.toList = pieces.flatMap Piece.all
  own : pieces.map (fun b => (some b.lexeme.kind, b.lexeme.line)) =
    tokens.map fun token => (token.kind?, token.line)
  around : ∀ q b, pieces[q]? = some b → Surrounds p.symbols (Piece.own pieces) q b
  ends : ∀ s, SignAt (Piece.own pieces) s → ∃ q, SignEnds p.symbols (Piece.own pieces) s q ∧
    ∀ r, s < r → r ≤ q → ¬ SignAt (Piece.own pieces) r
  signed : pieces.countP Piece.signed = metrics.unaryGroups
  ended : pieces.countP Piece.ended = metrics.unaryGroups
  size : p.lexemes.size = tokens.length + 3 * metrics.unaryGroups

/-- What is known of signs while tokens are still to come. No sign was opened while another one
waited just as long as there is an operand between any two. -/
structure Signs (symbols : Symbol.Table) (pieces : List Piece) (signOpen : Bool) : Prop where
  around : ∀ q b, pieces[q]? = some b → Surrounds symbols (Piece.own pieces) q b
  waits : signOpen ↔ ∃ s, SignWaits symbols (Piece.own pieces) s
  apart : pieces.countP Piece.ended + signOpen.toNat = pieces.countP Piece.signed →
    SignsApart symbols (Piece.own pieces)
  counted : SignsApart symbols (Piece.own pieces) →
    pieces.countP Piece.ended + signOpen.toNat = pieces.countP Piece.signed

section

variable {limits : Limits} {symbols : Symbol.Table} {own : List Lexeme} {l : Lexeme}
  {pieces : List Piece} {b : Piece} {q i line : Nat} {x : Symbol} {signOpen : Bool}
  {done tokens : List Token} {token : Token} {s t : Scan.State}

theorem Surrounds.concat (h : Surrounds symbols own q b) (hq : q < own.length) :
    Surrounds symbols (own ++ [l]) q b := by
  have hends : (∃ s, SignEnds symbols (own ++ [l]) s q) ↔ ∃ s, SignEnds symbols own s q :=
    exists_congr fun s => Lexeme.signEnds_concat_of_lt hq
  obtain ⟨hopening, hunopened, hclosing, hunclosed⟩ := h
  rw [← Lexeme.signAt_concat_of_lt (l := l) hq] at hopening hunopened
  rw [← hends] at hclosing hunclosed
  exact ⟨hopening, hunopened, hclosing, hunclosed⟩

theorem own_concat : Piece.own (pieces ++ [b]) = Piece.own pieces ++ [b.lexeme] := by
  rw [Piece.own, List.map_append, List.map_singleton, Piece.own]

theorem length_own : (Piece.own pieces).length = pieces.length := List.length_map ..

/-- A sign may follow the last lexeme of the table just where it may follow that of the last
token. -/
theorem Assembles.expectsOperand (h : Assembles done pieces s) :
    s.expectsOperand ↔ SignNext (Piece.own pieces) := by
  rw [Scan.expectsOperand_iff, h.lexemes]
  rcases List.eq_nil_or_concat pieces with rfl | ⟨init, b, rfl⟩
  · constructor
    · rintro ⟨_, hl, -⟩
      cases hl
    · rintro ⟨_, _, hlength, -⟩
      cases hlength
  · rw [List.concat_eq_append] at h ⊢
    obtain ⟨-, hafter⟩ := h.formed b (List.mem_append_right _ List.mem_cons_self)
    rw [own_concat, Lexeme.signNext_concat, List.flatMap_append, List.flatMap_singleton, Piece.all]
    rcases hafter with hafter | ⟨⟨line, hafter⟩, hno⟩
    · simp [hafter]
    · simpa [hafter, Lexeme.Kind.takesSign] using hno

theorem signs_begin : Signs symbols [] false := by
  refine ⟨?_, ⟨fun h => absurd h Bool.false_ne_true, ?_⟩, ?_, fun _ => rfl⟩
  · intro q b hb
    cases hb
  · rintro ⟨s, hs, -⟩
    cases hs.lt
  · intro _ s r hs
    cases hs.lt

/-- With one piece more, what stands around the earlier ones stays. -/
theorem Signs.around_concat (h : Signs symbols pieces signOpen)
    (hb : Surrounds symbols (Piece.own pieces ++ [b.lexeme]) (Piece.own pieces).length b) :
    ∀ q c, (pieces ++ [b])[q]? = some c → Surrounds symbols (Piece.own (pieces ++ [b])) q c := by
  intro q c hc
  rw [own_concat]
  rcases Lexeme.getElem?_concat.mp hc with hc | ⟨rfl, rfl⟩
  · exact (h.around q c hc).concat (length_own ▸ Lexeme.lt_of_getElem? hc)
  · rwa [← length_own]

/-- Behind a sign that opens, that sign waits. -/
theorem Signs.opening (h : Signs symbols pieces signOpen)
    (hendings : pieces.countP Piece.ended + signOpen.toNat ≤ pieces.countP Piece.signed)
    (hnext : SignNext (Piece.own pieces)) (hx : symbols.get? i = some x)
    (hzero : x.literalKey? = some (.i32, "0")) :
    Signs symbols (pieces ++ [⟨[⟨.openParen, line, none⟩, ⟨.literal, line, some i⟩],
      ⟨.minus, line, none⟩, []⟩]) true := by
  have hno : ¬ Lexeme.isOperand symbols ⟨.minus, line, none⟩ := by simp [Lexeme.isOperand]
  refine ⟨h.around_concat ⟨?_, ?_, ?_, ?_⟩, ?_, ?_, ?_⟩
  · exact fun _ => ⟨i, x, rfl, hx, hzero⟩
  · exact fun hsign => absurd (Lexeme.signAt_concat.mpr (Or.inr ⟨rfl, rfl, hnext⟩)) hsign
  · rintro ⟨s, hs⟩
    exact absurd (Lexeme.signEnds_length.mp hs).2 hno
  · exact fun _ => rfl
  · rw [own_concat]
    exact ⟨fun _ => ⟨_, Lexeme.signWaits_concat.mpr (Or.inr ⟨rfl, rfl, hnext⟩)⟩, fun _ => rfl⟩
  · intro heq
    have heq : pieces.countP Piece.ended + 1 = pieces.countP Piece.signed + 1 := by
      simpa [countP_concat, Piece.signed, Piece.ended] using heq
    -- as many signs were closed as opened, so none of the earlier ones waits
    cases signOpen with
    | true =>
      rw [Bool.toNat_true] at hendings
      omega
    | false =>
      rw [own_concat]
      refine (h.apart (Nat.succ.inj heq)).concat fun _ _ s hs => ?_
      cases h.waits.mpr ⟨s, hs⟩
  · rw [own_concat]
    intro hapart
    have hcount := h.counted hapart.of_concat
    cases signOpen with
    | true =>
      obtain ⟨s, hs⟩ := h.waits.mp rfl
      exact absurd hs (hapart.not_signWaits rfl hnext)
    | false => simpa [countP_concat, Piece.signed, Piece.ended] using hcount

/-- A minus is no sign where none may follow, and no other lexeme is one. -/
theorem not_signAt_length (hminus : l.kind = .minus → ¬ SignNext (Piece.own pieces)) :
    ¬ SignAt (Piece.own pieces ++ [l]) (Piece.own pieces).length := by
  rw [Lexeme.signAt_concat]
  rintro (hs | ⟨-, hk, hnext⟩)
  · exact absurd hs.lt (Nat.lt_irrefl _)
  · exact hminus hk hnext

/-- An operand for which a sign waits ends it. -/
theorem Signs.closing (h : Signs symbols pieces true) (hl : l.isOperand symbols) :
    Signs symbols (pieces ++ [⟨[], l, [⟨.closeParen, l.line, none⟩]⟩]) false := by
  have hminus : l.kind ≠ .minus := by
    intro hk
    simp [Lexeme.isOperand, hk] at hl
  refine ⟨h.around_concat ⟨?_, ?_, ?_, ?_⟩, ?_, ?_, ?_⟩
  · exact fun hs => absurd hs (not_signAt_length fun hk => absurd hk hminus)
  · exact fun _ => rfl
  · exact fun _ => rfl
  · intro hnone
    obtain ⟨s, hs⟩ := h.waits.mp rfl
    exact absurd ⟨s, Lexeme.signEnds_length.mpr ⟨hs, hl⟩⟩ hnone
  · refine ⟨fun h => absurd h Bool.false_ne_true, ?_⟩
    rw [own_concat]
    rintro ⟨s, hs⟩
    rcases Lexeme.signWaits_concat.mp hs with ⟨-, hno⟩ | ⟨-, hk, -⟩
    · exact absurd hl hno
    · exact absurd hk hminus
  · intro heq
    have heq : pieces.countP Piece.ended + 1 = pieces.countP Piece.signed := by
      simpa [countP_concat, Piece.signed, Piece.ended] using heq
    rw [own_concat]
    exact (h.apart heq).concat fun hk => absurd hk hminus
  · rw [own_concat]
    intro hapart
    have hcount := h.counted hapart.of_concat
    simpa [countP_concat, Piece.signed, Piece.ended] using hcount

/-- Any other lexeme leaves the signs as they are. -/
theorem Signs.alone (h : Signs symbols pieces signOpen)
    (hminus : l.kind = .minus → ¬ SignNext (Piece.own pieces))
    (hl : l.isOperand symbols → signOpen = false) :
    Signs symbols (pieces ++ [⟨[], l, []⟩]) signOpen := by
  have hwaits {s : Nat} (hs : SignWaits symbols (Piece.own pieces) s) : ¬ l.isOperand symbols := by
    intro hoperand
    rw [h.waits.mpr ⟨s, hs⟩] at hl
    cases hl hoperand
  refine ⟨h.around_concat ⟨?_, ?_, ?_, ?_⟩, ?_, ?_, ?_⟩
  · exact fun hs => absurd hs (not_signAt_length hminus)
  · exact fun _ => rfl
  · rintro ⟨s, hs⟩
    obtain ⟨hs, hoperand⟩ := Lexeme.signEnds_length.mp hs
    exact absurd hoperand (hwaits hs)
  · exact fun _ => rfl
  · rw [h.waits, own_concat]
    refine exists_congr fun s => ?_
    rw [Lexeme.signWaits_concat]
    constructor
    · exact fun hs => Or.inl ⟨hs, hwaits hs⟩
    · rintro (⟨hs, -⟩ | ⟨-, hk, hnext⟩)
      · exact hs
      · exact absurd hnext (hminus hk)
  · intro heq
    have heq : pieces.countP Piece.ended + signOpen.toNat = pieces.countP Piece.signed := by
      simpa [countP_concat, Piece.signed, Piece.ended] using heq
    rw [own_concat]
    exact (h.apart heq).concat fun hk hnext => absurd hnext (hminus hk)
  · rw [own_concat]
    intro hapart
    have hcount := h.counted hapart.of_concat
    simpa [countP_concat, Piece.signed, Piece.ended] using hcount

theorem Signs.step (h : Signs symbols pieces s.signOpen) (ha : Assembles done pieces s)
    (hb : Scan.Leaves token s t b)
    (hget : ∀ i x, t.program.symbols.get? i = some x → symbols.get? i = some x)
    (hoperand : b.lexeme.isOperand t.program.symbols = b.lexeme.isOperand symbols) :
    Signs symbols (pieces ++ [b]) t.signOpen := by
  obtain ⟨hwrites, -, -, hline⟩ := hb
  cases hwrites with
  | @sign i x hs ht hcount hx hzero =>
    rw [ht]
    exact h.opening ha.endings (ha.expectsOperand.mp hs) (hget i x hx) hzero
  | @closing l hl hs ht hcount =>
    rw [hs] at h
    rw [ht, ← hline]
    exact h.closing (hoperand ▸ hl)
  | @alone l hminus hl ht hcount =>
    rw [ht]
    refine h.alone (fun hk hnext => ?_) fun hl' => hl (hoperand ▸ hl')
    rw [← ha.expectsOperand, hminus hk] at hnext
    cases hnext

/-- The pieces of an accepted scan, with what its tables say in the end of names. -/
theorem signs_of_steps (hs : Scan.Ready s)
    (hbegin : Assembles [] [] s) (hclosed : s.signOpen = false)
    (h : Scan.scanTokens tokens s = .ok () t) :
    ∃ pieces, Assembles tokens pieces t ∧ Signs t.program.symbols pieces t.signOpen := by
  have hrun := Scan.scanTokens_history
    (P := fun done _ u => Scan.Ready u ∧
      ∃ pieces, Assembles done pieces u ∧ Signs t.program.symbols pieces u.signOpen) ?_
    ⟨hs, [], hbegin, hclosed ▸ signs_begin⟩ h
  · exact hrun.2
  · rintro done token rest u v ⟨hready, pieces, hpieces, hsigns⟩ hstep hrest
    obtain ⟨b, hb⟩ := hstep.leaves hready.1.indexed
    have hv := hready.step hstep
    have hgrows := hv.grows hrest
    have hmem : b.lexeme ∈ v.program.lexemes.toList := by
      rw [hb.lexemes, Piece.all]
      simp
    have hoperand : b.lexeme.isOperand v.program.symbols =
        b.lexeme.isOperand t.program.symbols := by
      rw [Lexeme.isOperand, Lexeme.isOperand, hgrows.isFunction (hv.1.lexemes _ hmem)]
    exact ⟨hv, _, hpieces.concat hb,
      hsigns.step hpieces hb (fun _ _ => hgrows.get?) hoperand⟩

/-- The lexeme table of an accepted scan into empty tables is an image of the tokens. -/
theorem scan_image {settings : ScanSettings} {maxDepth maxSymbols maxLexemes : Nat}
    {tokens : List Token} {metrics : Metrics}
    (h : (scan settings maxDepth tokens (empty maxSymbols maxLexemes)).result = .ok metrics) :
    ∃ pieces,
      Image (scan settings maxDepth tokens (empty maxSymbols maxLexemes)).program metrics tokens
        pieces := by
  obtain ⟨n, symbols, t, hr, hs, hc, hscan⟩ := steps_of_scan h
  obtain ⟨hfollows, -⟩ := assembled_of_steps hr hs
  obtain ⟨pieces, hpieces, hsigns⟩ :=
    signs_of_steps (ready_library hr) assembles_begin rfl hs
  rw [hscan] at h ⊢
  obtain rfl : t.summary tokens = metrics := Except.ok.inj h
  obtain ⟨-, hended, hclosed⟩ := hpieces.settles hfollows hc
  rw [hclosed] at hsigns
  have hapart := hsigns.apart (by rw [hended]; rfl)
  have hwaits (s : Nat) : ¬ SignWaits t.program.symbols (Piece.own pieces) s := fun hs =>
    absurd (hsigns.waits.mpr ⟨s, hs⟩) Bool.false_ne_true
  have hcount : (t.summary tokens).unaryGroups = pieces.countP Piece.signed := hpieces.signs
  have hlength := congrArg List.length hpieces.tokens
  rw [List.length_map, List.length_map] at hlength
  have hsize : t.program.lexemes.size = (pieces.flatMap Piece.all).length := by
    rw [← Lexeme.Table.length_toList, hpieces.lexemes]
  rw [(Piece.tally hpieces.formed).length, hended, hlength] at hsize
  refine ⟨pieces, hpieces.lexemes, hpieces.tokens, hsigns.around,
    fun s hs => hs.ends (hwaits s) hapart, hcount.symm, hended.trans hcount.symm, ?_⟩
  rw [hsize, hcount]
  omega

end

attribute [local instance] Limits.development

/-- An entry point, and a sign in front of a literal. -/
def signedLiteral : List Token := oneLine 1 ["fn", "i32", "main", "ret", "-", "1"]

/-- The symbol of its entry point. -/
def signedLiteralMain : Symbol :=
  .declared Kind.mainWord.text Symbol.globalScope 2 .i32 .function

/-- The zero in front of its sign. -/
def signedLiteralZero : Symbol := .literal 5 .i32 "0"

/-- The library alone has five symbols, no entry point and no literals. -/
theorem exists_library {capacity : Nat} (hroom : 5 ≤ capacity) :
    ∃ u n, (Symbol.Table.empty capacity).registerLibrary = (.ok n, u) ∧ u.size = 5 ∧
      u.capacity = capacity ∧ u.lookup Symbol.globalScope Kind.mainWord.text = none ∧
      ∀ value, u.lookupLiteral .i32 value = none := by
  obtain ⟨u, hu, hindexed, hlist, hcapacity⟩ := Symbol.Table.registerLibrary_empty hroom
  refine ⟨u, _, hu, ?_, hcapacity, ?_, fun value => ?_⟩
  · rw [← Symbol.Table.length_toList, hlist]
    rfl
  · rw [hindexed.lookup, hlist]
    decide
  · rw [hindexed.lookupLiteral, hlist]
    rfl

theorem result_signedLiteral : ∃ metrics,
    (scan {} 0 signedLiteral (empty 8 9)).result = .ok metrics ∧ metrics.unaryGroups = 1 := by
  obtain ⟨u, n, hu, hsize, hcapacity, hmain, hfirst⟩ := exists_library (show 5 ≤ 8 by decide)
  have hzero : (u.add signedLiteralMain).lookupLiteral .i32 "0" = none := by
    rw [Symbol.Table.lookupLiteral_add_of_none rfl, hfirst]
  have hone : ((u.add signedLiteralMain).add signedLiteralZero).lookupLiteral .i32 "1" = none := by
    rw [Symbol.Table.lookupLiteral_add (x := signedLiteralZero) rfl,
      Symbol.Table.lookupLiteral_add_of_none rfl, hfirst]
    rfl
  have hmainRoom : u.refusal? signedLiteralMain = none :=
    Symbol.Table.refusal?_eq_none.mpr ⟨by omega, fun _ => hmain⟩
  have hzeroRoom : (u.add signedLiteralMain).refusal? signedLiteralZero = none :=
    Symbol.Table.refusal?_eq_none.mpr ⟨by simp [hsize, hcapacity], fun h => by cases h⟩
  have honeRoom : ((u.add signedLiteralMain).add signedLiteralZero).refusal?
      (.literal 7 .i32 "1") = none :=
    Symbol.Table.refusal?_eq_none.mpr ⟨by simp [hsize, hcapacity], fun h => by cases h⟩
  have hvalue : Scan.literal? "1" = some (.i32, "1") := by decide
  have room {m n : Nat} (h : Nat.ble m n = true) : m ≤ n := Nat.le_of_ble_eq_true h
  have hrun : ∃ t, Scan.scanTokens signedLiteral (.begin {} 0 u (.empty 9)) = .ok () t ∧
      t.program.lexemes.kinds = [.fnWord, .datatype, .mainWord, .retWord, .openParen, .literal,
        .minus, .literal, .closeParen] ∧ t.metrics.unaryGroups = 1 := by
    exact ⟨_,
      Scan.scanTokens_cons_eq_ok.mpr ⟨_, .plain (k := .fnWord) (by decide) rfl (room rfl),
      Scan.scanTokens_cons_eq_ok.mpr ⟨_, .datatype (k := .i32) (by decide) rfl (room rfl),
      Scan.scanTokens_cons_eq_ok.mpr ⟨_, .refer (.mainDeclared (by decide) hmain rfl rfl
        hmainRoom) (.plain rfl (room rfl)),
      Scan.scanTokens_cons_eq_ok.mpr ⟨_, .plain (k := .retWord) (by decide) rfl (room rfl),
      Scan.scanTokens_cons_eq_ok.mpr ⟨_, .sign (by decide) rfl (room rfl) (.added hzero hzeroRoom),
      Scan.scanTokens_cons_eq_ok.mpr ⟨_, .refer (.literal hvalue (.added hone honeRoom))
        (.closing rfl (room rfl)), rfl⟩⟩⟩⟩⟩⟩, rfl, rfl⟩
  obtain ⟨t, ht, hkinds, hsigns⟩ := hrun
  have hstructure : Scan.checkStructure t.program.lexemes = .ok () := by
    rw [Scan.checkStructure_eq_ok, hkinds]
    decide
  exact ⟨t.summary signedLiteral, congrArg Scanned.result (scan_of_steps hu ht hstructure), hsigns⟩

/-- One sign, and so nine lexemes for six tokens. -/
theorem image_signedLiteral : ∃ metrics pieces, metrics.unaryGroups = 1 ∧
    Image (scan {} 0 signedLiteral (empty 8 9)).program metrics signedLiteral pieces := by
  obtain ⟨metrics, h, hsigns⟩ := result_signedLiteral
  obtain ⟨pieces, hpieces⟩ := scan_image h
  exact ⟨metrics, pieces, hsigns, hpieces⟩

end Program
end Ttm
