import Ttm.Proofs.Program.Piece

/-! How much room in the lexeme table the tokens of a scan take at most. -/
namespace Ttm.Program

open Lexeme (Kind)
open Source (Token)

/-- The lexeme table has no room. -/
def Error.wantsLexeme : Error → Bool
  | .capacityExceeded .lexeme .. => true
  | _ => false

/-- A minus right behind this token is a sign. -/
def takesSign [Limits] (token : Token) : Bool := token.kind?.any (·.takesSign)

/-- The number of signs among tokens; `next` tells whether the first token may be one. -/
def signs [Limits] (next : Bool) : List Token → Nat
  | [] => 0
  | token :: rest => (next && token.kind? == some .minus).toNat + signs (takesSign token) rest

namespace Scan

/-- The action leaves the lexeme table alone. -/
structure Spares {α : Type} (a : Action α) : Prop where
  ok : ∀ s x t, a s = .ok x t → SameTable s t
  error : ∀ s e t, a s = .error e t → e.wantsLexeme = false

/-- In this state the action takes at most `n` entries of the lexeme table, `held` being set aside
before and behind it, and wants a lexeme only where these are not free. -/
structure Takes {α : Type} (held : State → Nat) (n : Nat) (a : Action α) (s : State) : Prop where
  ok : ∀ x t k, a s = .ok x t → s.HasRoom (held s + n + k) → t.HasRoom (held t + k)
  error : ∀ e t, a s = .error e t → e.wantsLexeme → ¬ s.HasRoom (held s + n)

/-- What is set aside covers the lexemes of a token, if it pays `cost` and a sign `extra` more. -/
structure Charges (held : State → Nat) (cost extra : Nat) : Prop where
  same : ∀ s t, SameTable s t → held t = held s
  lexeme : ∀ s l, held (s.addLexeme l) + 1 ≤ held s + cost
  closing : ∀ s l line, s.signOpen → held { (s.addLexeme l).addLexeme
    ⟨.closeParen, line, none⟩ with signOpen := false } + 2 ≤ held s + cost
  sign : ∀ s t, s.expectsOperand → t.signOpen → t.expectsOperand = false →
    held t + 3 ≤ held s + (cost + extra)

variable {limits : Limits} {α β : Type} {a a' : Action α} {f : α → Action β} {x : α} {s t u : State}
  {e : Error} {g : State → State} {held : State → Nat} {cost extra m n line index : Nat}
  {called : Bool} {name : String} {kind : SymbolKind} {token : Token} {tokens : List Token}
  {type : DataType} {value : String} {k : Kind} {l : Lexeme}

theorem expectsOperand_addLexeme : (s.addLexeme l).expectsOperand = decide l.kind.takesSign := by
  rw [Bool.eq_iff_iff, expectsOperand_iff, toList_addLexeme, decide_eq_true_iff]
  simp

theorem SameTable.refl (s : State) : SameTable s s := ⟨rfl, rfl, rfl⟩

theorem SameTable.trans (h : SameTable s t) (h' : SameTable t u) : SameTable s u :=
  ⟨h'.lexemes.trans h.lexemes, h'.signOpen.trans h.signOpen, h'.unaryGroups.trans h.unaryGroups⟩

theorem Spares.bind (ha : Spares a) (hf : ∀ x, Spares (f x)) : Spares (a >>= f) := by
  constructor
  · intro s y t h
    obtain ⟨x, u, hu, ht⟩ := bind_eq_ok.mp h
    exact (ha.ok s x u hu).trans ((hf x).ok u y t ht)
  · intro s e t h
    rcases bind_eq_error.mp h with h | ⟨x, u, -, h⟩
    · exact ha.error s e t h
    · exact (hf x).error u e t h

theorem Spares.ite {c : Prop} [Decidable c] (ha : Spares a) (ha' : Spares a') :
    Spares (if c then a else a') := by
  split
  · exact ha
  · exact ha'

theorem spares_pure : Spares (pure x : Action α) := by
  constructor
  · intro s y t h
    obtain ⟨-, rfl⟩ := pure_eq_ok.mp h
    exact .refl t
  · exact fun s e t h => (pure_eq_error.mp h).elim

theorem spares_get : Spares (get : Action State) := by
  constructor
  · intro s y t h
    cases h
    exact .refl _
  · intro s e t h
    cases h

theorem spares_modify (hg : ∀ s, SameTable s (g s)) : Spares (modify g) := by
  constructor
  · intro s y t h
    obtain rfl := modify_eq_ok.mp h
    exact hg s
  · exact fun s e t h => (modify_eq_error.mp h).elim

theorem spares_raise (he : e.wantsLexeme = false) : Spares (raise e : Action α) := by
  constructor
  · exact fun s y t h => (raise_eq_ok.mp h).elim
  · intro s e' t h
    obtain ⟨rfl, -⟩ := raise_eq_error.mp h
    exact he

theorem spares_insertSymbol {x : Symbol} : Spares (insertSymbol x line) := by
  constructor
  · intro s y t h
    obtain ⟨-, -, rfl⟩ := insertSymbol_eq_ok.mp h
    exact ⟨rfl, rfl, rfl⟩
  · intro s e t h
    obtain ⟨cause, -, rfl, -⟩ := insertSymbol_eq_error.mp h
    cases cause <;> rfl

theorem spares_insertDeclaration : Spares (insertDeclaration name kind line) := by
  refine spares_get.bind fun s => ?_
  split
  · exact spares_raise rfl
  · exact spares_insertSymbol.bind fun _ =>
      (spares_modify fun _ => ⟨by rfl, by rfl, by rfl⟩).bind fun _ => spares_pure

theorem spares_declare : Spares (declare name line) := by
  refine spares_get.bind fun s => ?_
  split
  · exact spares_raise rfl
  · exact ((spares_modify fun _ => ⟨by rfl, by rfl, by rfl⟩).bind fun _ =>
      spares_insertDeclaration).ite spares_insertDeclaration

theorem spares_intern : Spares (intern type value line) := by
  refine spares_get.bind fun s => ?_
  split
  · exact (spares_modify fun _ => ⟨by rfl, by rfl, by rfl⟩).bind fun _ => spares_pure
  · exact spares_insertSymbol.bind fun _ =>
      (spares_modify fun _ => ⟨by rfl, by rfl, by rfl⟩).bind fun _ => spares_pure

theorem spares_enterScope : Spares (enterScope line) := by
  constructor
  · intro s y t h
    obtain ⟨scopes, -, rfl⟩ := enterScope_eq_ok.mp h
    exact ⟨rfl, rfl, rfl⟩
  · intro s e t h
    unfold enterScope at h
    split at h <;> cases h <;> rfl

theorem spares_leaveScope : Spares (leaveScope line) := by
  constructor
  · intro s y t h
    obtain ⟨scopes, -, rfl⟩ := leaveScope_eq_ok.mp h
    exact ⟨rfl, rfl, rfl⟩
  · intro s e t h
    unfold leaveScope at h
    split at h <;> cases h
    rfl

theorem Takes.mono (h : Takes held m a s) (hle : m ≤ n) : Takes held n a s := by
  have hroom {j k : Nat} (hjk : j ≤ k) (h : s.HasRoom k) : s.HasRoom j := by
    unfold State.HasRoom at h ⊢
    omega
  constructor
  · intro x t k ha room
    exact h.ok x t k ha (hroom (by omega) room)
  · intro e t ha he room
    exact h.error e t ha he (hroom (by omega) room)

theorem Takes.ite {c : Prop} [Decidable c] (ha : Takes held n a s) (ha' : Takes held n a' s) :
    Takes held n (if c then a else a') s := by
  split
  · exact ha
  · exact ha'

theorem takes_raise (he : e.wantsLexeme = false) : Takes held n (raise e : Action α) s := by
  constructor
  · exact fun y t k h => (raise_eq_ok.mp h).elim
  · intro e' t h hwants
    rw [(spares_raise he).error s e' t h] at hwants
    cases hwants

theorem takes_get {f : State → Action β} (h : Takes held n (f s) s) :
    Takes held n (get >>= f) s :=
  ⟨h.ok, h.error⟩

namespace Charges

/-- What leaves the table alone may come first. -/
theorem spared (hc : Charges held cost extra) (ha : Spares a) (hf : ∀ x t, Takes held n (f x) t) :
    Takes held n (a >>= f) s := by
  have hroom {t : State} {k : Nat} (h : SameTable s t) :
      t.HasRoom (held t + k) ↔ s.HasRoom (held s + k) := by
    rw [hc.same s t h, State.HasRoom, h.lexemes, State.HasRoom]
  constructor
  · intro y t k h room
    obtain ⟨x, u, hu, ht⟩ := bind_eq_ok.mp h
    have hsame := ha.ok s x u hu
    refine (hf x u).ok y t k ht ?_
    rw [Nat.add_assoc] at room ⊢
    exact (hroom hsame).mpr room
  · intro e t h hwants
    rcases bind_eq_error.mp h with h | ⟨x, u, hu, h⟩
    · rw [ha.error s e t h] at hwants
      cases hwants
    · rw [← hroom (ha.ok s x u hu)]
      exact (hf x u).error e t h hwants

theorem check (hc : Charges held cost extra) {c : Prop} [Decidable c]
    (he : e.wantsLexeme = false) (ha : ∀ t, Takes held n a t) :
    Takes held n (if c then raise e >>= fun _ : Unit => a else a) s :=
  (hc.spared (spares_raise he) fun _ => ha).ite (ha s)

theorem takes_emit (hc : Charges held cost extra) {symbol : Option Nat} :
    Takes held cost (emit k line symbol) s := by
  have hlexeme := hc.lexeme s ⟨k, line, symbol⟩
  constructor
  · intro x t k ha room
    obtain ⟨-, rfl⟩ := emit_eq_ok.mp ha
    unfold State.HasRoom at room ⊢
    rw [State.addLexeme, Lexeme.Table.size_add, Lexeme.Table.capacity_add] at *
    omega
  · intro e t ha _ room
    obtain ⟨hfull, -, -⟩ := emit_eq_error.mp ha
    unfold State.HasRoom at room hfull
    omega

/-- A symbol becomes a lexeme, and an open sign may end behind it. -/
theorem takes_refers (hc : Charges held cost extra) {c : State → Prop} [DecidablePred c]
    (hcloses : c (s.addLexeme ⟨k, line, some index⟩) ↔ s.closes k index) :
    Takes held cost (do
      emit k line (some index)
      let u ← get
      if c u then closeSign line : Action Unit) s := by
  have hopen (h : s.closes k index) : s.signOpen := by
    rw [closes_eq line, Bool.and_eq_true] at h
    exact h.1
  constructor
  · intro x t j ha room
    cases (refers_iff hcloses).mp ha with
    | plain _ room' => exact hc.takes_emit.ok x _ j (emit_eq_ok.mpr ⟨room', rfl⟩) room
    | closing hclosing =>
      have hheld := hc.closing s ⟨k, line, some index⟩ line (hopen hclosing)
      unfold State.HasRoom at room ⊢
      simp only [State.addLexeme, Lexeme.Table.size_add, Lexeme.Table.capacity_add] at hheld ⊢
      omega
  · intro e t ha hwants room
    simp only [bind_eq_error, emit_eq_ok, get_bind, ite_eq_error, pure_eq_error, and_false,
      or_false] at ha
    rcases ha with ha | ⟨_, _, ⟨-, rfl⟩, hcond, ha⟩
    · exact hc.takes_emit.error e t ha hwants room
    · have hheld := hc.closing s ⟨k, line, some index⟩ line (hopen (hcloses.mp hcond))
      simp only [closeSign, bind_eq_error, emit_eq_error, modify_eq_error, and_false,
        exists_false, or_false, hasRoom_addLexeme] at ha
      unfold State.HasRoom at room ha
      omega

theorem takes_openSign (hc : Charges held cost extra) (hs : s.expectsOperand) :
    Takes held (cost + extra) (openSign line) s := by
  have hle {i j : Nat} (hij : i ≤ j) (h : s.HasRoom j) : s.HasRoom i := by
    unfold State.HasRoom at h ⊢
    omega
  constructor
  · intro x t j ha room
    obtain ⟨index, u, -, hi, ht⟩ := openSign_eq_ok.mp ha
    have hnext : t.expectsOperand = false := by
      rw [ht]
      exact expectsOperand_addLexeme
    have hheld := hc.sign s t hs (by rw [ht]) hnext
    rw [ht]
    show ((u.addLexeme _).addLexeme _).HasRoom _
    rw [hasRoom_addLexeme, hasRoom_addLexeme, hi.hasRoom, hasRoom_addLexeme, ← ht]
    exact hle (by omega) room
  · intro e t ha hwants room
    have hheld := hc.sign s { s.addLexeme ⟨.minus, line, none⟩ with signOpen := true } hs rfl
      expectsOperand_addLexeme
    have room : s.HasRoom 3 := hle (by omega) room
    simp only [openSign, bind_eq_error, emit_eq_error, emit_eq_ok, intern_eq_ok_iff,
      modify_eq_error, and_false, exists_false, or_false] at ha
    rcases ha with ⟨hfull, -⟩ | ⟨_, _, ⟨-, rfl⟩, ha | ⟨_, u, hi, ha⟩⟩
    · exact hfull (hle (by omega) room)
    · rw [spares_intern.error _ _ _ ha] at hwants
      cases hwants
    · simp only [hi.hasRoom, hasRoom_addLexeme] at ha
      rcases ha with ⟨hfull, -⟩ | ⟨_, _, ⟨-, rfl⟩, hfull, -⟩
      · exact hfull (hle (by omega) room)
      · rw [hasRoom_addLexeme, hi.hasRoom, hasRoom_addLexeme] at hfull
        exact hfull room

theorem takes_scanIdentifier (hc : Charges held cost extra) :
    Takes held cost (scanIdentifier name line called) s := by
  have hrefers (symbol : Nat) (t : State) : Takes held cost (do
      emit .identifier line (some symbol)
      let s ← get
      if s.signOpen ∧ !s.program.symbols.isFunction symbol then closeSign line) t :=
    hc.takes_refers (by simp [State.closes, State.addLexeme])
  refine takes_get <| hc.check rfl fun _ => ?_
  split
  · exact (hc.spared (spares_raise rfl) hrefers).ite (hc.spared spares_pure hrefers)
  · exact hc.spared spares_declare hrefers

theorem takes_scanMain (hc : Charges held cost extra) : Takes held cost (scanMain line) s := by
  refine takes_get ?_
  split
  · exact (hc.spared (spares_raise rfl) fun _ _ => hc.takes_emit).ite
      (hc.spared spares_pure fun _ _ => hc.takes_emit)
  · refine hc.check rfl fun _ => hc.check rfl fun _ => ?_
    exact hc.spared (spares_modify fun _ => ⟨by rfl, by rfl, by rfl⟩) fun _ _ =>
      hc.spared spares_insertDeclaration fun _ _ => hc.takes_emit

theorem takes_scanLiteral (hc : Charges held cost extra) :
    Takes held cost (scanLiteral type value line) s :=
  hc.spared spares_intern fun _ _ => hc.takes_refers (by simp [State.closes, State.addLexeme])

theorem takes_scanInteger (hc : Charges held cost extra) {text : String} :
    Takes held cost (scanInteger text line) s := by
  unfold scanInteger
  split
  · exact takes_raise rfl
  · exact hc.takes_scanLiteral

theorem takes_scanString (hc : Charges held cost extra) {text : String} :
    Takes held cost (scanString text line) s := by
  unfold scanString
  split
  · exact takes_raise rfl
  · exact hc.takes_scanLiteral

/-- A sign takes `extra` entries more than another token. -/
theorem takes_scanToken (hc : Charges held cost extra) :
    Takes held (cost + extra * (s.expectsOperand && token.kind? == some .minus).toNat)
      (scanToken token called) s := by
  have hdatatype (type : DataType) : Takes held cost (scanDatatype type token.line) s :=
    hc.spared (spares_modify fun _ => ⟨by rfl, by rfl, by rfl⟩) fun _ _ => hc.takes_emit
  unfold scanToken
  split
  · exact takes_raise rfl
  · exact (hdatatype _).mono (Nat.le_add_right _ _)
  · exact (hdatatype _).mono (Nat.le_add_right _ _)
  · exact hc.takes_scanMain.mono (Nat.le_add_right _ _)
  · exact hc.takes_scanIdentifier.mono (Nat.le_add_right _ _)
  · exact hc.takes_scanInteger.mono (Nat.le_add_right _ _)
  · exact hc.takes_scanString.mono (Nat.le_add_right _ _)
  · next hk =>
    have hminus : token.kind? = some .minus := Token.kind?_of_ofText? hk
    refine takes_get ?_
    split
    · next hs => simpa [hs, hminus] using hc.takes_openSign hs
    · exact hc.takes_emit.mono (Nat.le_add_right _ _)
  · next k _ _ _ _ _ _ _ hk =>
    refine Takes.mono ?_ (Nat.le_add_right _ _)
    have hclosed (t : State) : Takes held cost (do
        if k = .closeBrace ∨ k = .closeParen then leaveScope token.line
        emit k token.line) t :=
      (hc.spared spares_leaveScope fun _ _ => hc.takes_emit).ite hc.takes_emit
    exact (hc.spared spares_enterScope fun _ => hclosed).ite (hclosed s)

end Charges

theorem takesSign_eq (hk : token.kind? = some k) : takesSign token = decide k.takesSign := by
  rw [takesSign, hk, Option.any_some]

/-- Behind a token there may be a sign just where the token says so. -/
theorem Leaves.expectsOperand {b : Piece} (h : Leaves token s t b) :
    t.expectsOperand = takesSign token := by
  rw [takesSign_eq h.kind, Bool.eq_iff_iff, expectsOperand_iff, h.lexemes, decide_eq_true_iff]
  cases h.writes with
  | sign | alone => simp [Piece.all]
  | @closing l hl =>
    have hkind : ¬ l.kind.takesSign := by
      intro htakes
      simp only [Lexeme.isOperand, Bool.or_eq_true, Bool.and_eq_true, beq_iff_eq] at hl
      rcases hl with hk | ⟨hk, -⟩ <;> rw [hk] at htakes <;> exact absurd htakes (by decide)
    simp [Piece.all, hkind]
    decide

/-- Tokens find no room in the lexeme table only where there is none for what they are charged. -/
theorem Charges.not_hasRoom (hc : Charges held cost extra) (hs : Ready s)
    (h : scanTokens tokens s = .error e t) (he : e.wantsLexeme) :
    ¬ s.HasRoom (held s + (cost * tokens.length + extra * signs s.expectsOperand tokens)) := by
  -- over the tokens to come: an accepted one leaves room for the rest, or there was none before
  induction tokens generalizing s with
  | nil => cases h
  | cons token rest ih =>
    have htoken : Takes held _ (scanToken token (opensCall rest)) s := hc.takes_scanToken
    intro room
    rw [List.length_cons, signs, Nat.mul_add_one, Nat.mul_add] at room
    rcases bind_eq_error.mp h with h | ⟨_, u, hu, hrest⟩
    · refine htoken.error e t h he ?_
      unfold State.HasRoom at room ⊢
      omega
    · have hstep := scanToken_eq_ok.mp hu
      obtain ⟨b, hb⟩ := hstep.leaves hs.1.indexed
      refine ih (hs.step hstep) hrest (htoken.ok _ u _ hu ?_)
      rw [hb.expectsOperand]
      unfold State.HasRoom at room ⊢
      omega

/-- A token is charged one entry, and a sign three more: the last one is held for the bracket that
ends it. -/
theorem charges_signOpen : Charges (fun s => s.signOpen.toNat) 1 3 := by
  constructor
  · intro s t h
    rw [h.signOpen]
  · intro s l
    rfl
  · intro s l line hs
    simp [hs]
  · intro s t hs ht hnext
    simp [ht]

/-- Two entries for each token are enough, if one is held where a sign may come next. -/
theorem charges_expectsOperand : Charges (fun s => s.expectsOperand.toNat) 2 0 := by
  constructor
  · intro s t h
    rw [State.expectsOperand, h.lexemes, State.expectsOperand]
  · intro s l
    have := Bool.toNat_le (s.addLexeme l).expectsOperand
    omega
  · intro s l line hs
    show ((s.addLexeme l).addLexeme ⟨.closeParen, line, none⟩).expectsOperand.toNat + 2 ≤ _
    rw [expectsOperand_addLexeme]
    exact Nat.le_add_left _ _
  · intro s t hs ht hnext
    simp [hs, hnext]

end Scan
end Ttm.Program
