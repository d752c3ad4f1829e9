import Ttm.Proofs.Core.Place
import Ttm.Proofs.Lexeme.Word

/-! Scanning the words of a program: each is accepted and written, with the signs written out. -/
namespace Ttm.Core

open Lexeme (Kind)
open Program.Scan (State Step Resolves Refers Interns)
open Source (Token)
open Ttm.Symbol (Declaration Key)

variable {limits : Limits} {all : List Key} {limit nest : Nat} {p : Place} {signs : Signs}
  {s t u : State} {w : Word} {token : Token} {called : Bool} {line index : Nat} {kind : SymbolKind}
  {type : DataType} {value : String}

/-- A symbol that a word refers to becomes its lexeme, and an open sign ends behind an operand. -/
theorem At.refers (h : At all limit p signs u)
    (hw : Stands u.program.symbols w ⟨w.kind, line, some index⟩)
    (room : u.HasRoom (signs.written w).length) :
    ∃ t, Refers line w.kind index u t ∧ At all limit p (signs.next w) t ∧
      Writes u t (signs.written w) := by
  have hsign : ¬ (signs.allowed ∧ w = Expr.minus) := by
    rintro ⟨-, rfl⟩
    cases hw.points
  have hcloses : u.closes w.kind index = (signs.waiting && w.isOperand) := by
    have hfunction := isFunction_of_points hw.points
    rw [← h.waiting]
    cases w with
    | mark | datatype | padding => cases hw.points
    | call | entry => simp [State.closes, Word.kind, Word.isOperand]
    | _ => simp [State.closes, Word.kind, Word.isOperand, hfunction, Word.isFunction]
  by_cases hoperand : signs.waiting ∧ w.isOperand
  · have hwritten : signs.written w = [w, Expr.closing] := by
      rw [Signs.written, if_neg hsign, if_pos hoperand]
    have hnext : signs.next w = ⟨false, expects .closeParen⟩ := by
      rw [Signs.next, if_neg hsign, hoperand.1, hoperand.2]
      cases w <;> first | rfl | cases hoperand.2
    rw [hwritten] at room ⊢
    have hc : u.closes w.kind index := by rw [hcloses, hoperand.1, hoperand.2]; rfl
    have hclosing : Stands u.program.symbols Expr.closing ⟨.closeParen, line, none⟩ :=
      stands_of_key rfl
    have hat := (h.addLexeme (l := ⟨w.kind, line, some index⟩)).addLexeme
      (l := ⟨.closeParen, line, none⟩)
    have hwrites := (writes_addLexeme hw).trans (writes_addLexeme (s := u.addLexeme _) hclosing)
    exact ⟨_, .closing hc room, hnext ▸ hat.quiet, hwrites.symbols, hwrites.capacity,
      hwrites.lexemes⟩
  · have hc : u.closes w.kind index = false := by
      rw [hcloses]
      simpa using hoperand
    have hroom : u.HasRoom 1 := by rwa [Signs.written, if_neg hsign, if_neg hoperand] at room
    exact ⟨_, .plain hc hroom, h.write hw hsign hoperand⟩

/-- A literal finds its symbol or adds it. -/
theorem At.interns (h : At all limit p signs s) (hall : Key.literal type value ∈ all) :
    ∃ index t, Interns type value s index t ∧ At all limit p signs t ∧ Writes s t [] ∧
      t.program.lexemes = s.program.lexemes ∧
      ∃ x, t.program.symbols.get? index = some x ∧ x.key = .literal type value := by
  cases hl : s.program.symbols.lookupLiteral type value with
  | some index =>
    exact ⟨index, _, .reused hl,
      ⟨h.fits, h.knows, h.function, h.scopes, h.limit, h.waiting, h.allowed⟩,
      writes_of_lexemes rfl fun _ _ h => h, rfl, h.fits.indexed.key_of_lookupLiteral hl⟩
  | none =>
    have hkey : (s.newLiteral type value).key = .literal type value := rfl
    have hnew : (s.newLiteral type value).key ∉ s.program.symbols.keys := by
      rw [hkey]
      exact h.fits.indexed.lookupLiteral_eq_none.mp hl
    have hliteral : (s.newLiteral type value).literalKey? = some (type, value) := rfl
    have hr := h.fits.refusal?_eq_none (by rwa [hkey]) hnew
    exact ⟨_, _, .added hl hr,
      ⟨h.fits.add (by rwa [hkey]) hnew, h.knows.addLiteral hliteral, h.function, h.scopes, h.limit,
        h.waiting, h.allowed⟩,
      writes_of_lexemes rfl fun _ _ h => Symbol.Table.get?_add h, rfl,
      _, Symbol.Table.get?_add_self, hkey⟩

theorem kind_of_literal {x : Symbol} (h : x.key = .literal type value) : x.kind = .literal := by
  unfold Symbol.key at h
  split at h
  · next hkey =>
    unfold Symbol.literalKey? at hkey
    split at hkey
    · next hl => simpa [Symbol.isLiteral] using hl
    · cases hkey
  · cases h

/-- A literal is written. -/
theorem At.literal (h : At all limit p signs s)
    (htext : Program.Scan.literal? token.text = some (type, value))
    (hkey : w.key? = some (.literal type value)) (hall : Key.literal type value ∈ all)
    (room : s.HasRoom (signs.written w).length) :
    ∃ t, Step token called s t ∧ At all limit p (signs.next w) t ∧
      Writes s t (signs.written w) := by
  obtain ⟨index, u, hi, hu, hwrites, hlexemes, x, hx, hxkey⟩ := h.interns hall
  have hkind : w.kind = .literal ∧ w.Suits x.kind := by
    have hliteral := kind_of_literal hxkey
    cases w with
    | integer | text => exact ⟨rfl, hliteral⟩
    | _ => cases hkey
  have hstands : Stands u.program.symbols w ⟨w.kind, token.line, some index⟩ := by
    refine ⟨rfl, ?_⟩
    rw [Word.Points, hkey]
    exact ⟨index, x, rfl, hx, hxkey, hkind.2⟩
  obtain ⟨t, ht, hat, hwritten⟩ := hu.refers hstands (hwrites.hasRoom.mpr (by simpa using room))
  refine ⟨t, .refer (.literal htext hi) (hkind.1 ▸ ht), hat, ?_⟩
  simpa using hwrites.trans hwritten

/-- A declared name is written. -/
theorem At.name (h : At all limit p signs s) (hsettled : Settled s.program.lexemes.kinds)
    (hname : IsName token.text) (hself : token.text = s.scopes.current → called) {d : Declaration}
    (hd : d ∈ p.declared) (hscope : d.scope = s.lookupScope called) (htext : d.name = token.text)
    (hkey : w.key? = some d.key) (hkind : w.kind = .identifier) (hsuits : w.Suits d.kind)
    (room : s.HasRoom (signs.written w).length) :
    ∃ t, Step token called s t ∧ At all limit p (signs.next w) t ∧
      Writes s t (signs.written w) := by
  obtain ⟨index, x, hl, hx, hxkey, hxkind⟩ := h.knows.found d hd
  have hstands : Stands s.program.symbols w ⟨w.kind, token.line, some index⟩ := by
    refine ⟨rfl, ?_⟩
    rw [Word.Points, hkey]
    exact ⟨index, x, rfl, hx, hxkey, hxkind ▸ hsuits⟩
  obtain ⟨t, ht, hat, hwritten⟩ := h.refers hstands room
  rw [hscope, htext] at hl
  exact ⟨t, .refer (.found hname hself hl hsettled.declarationKind?) (hkind ▸ ht), hat, hwritten⟩

/-- Lexemes that a sign puts in front of its operand. -/
theorem At.sign (h : At all limit p signs s) (hk : Kind.ofText? token.text = some .minus)
    (hallowed : signs.allowed) (hall : Key.literal .i32 "0" ∈ all) (room : s.HasRoom 3) :
    ∃ t, Step token called s t ∧ At all limit p ⟨true, false⟩ t ∧
      Writes s t [Expr.opening, Expr.zero, Expr.minus] := by
  have hopen := h.addLexeme (l := ⟨.openParen, token.line, none⟩)
  obtain ⟨index, u, hi, hu, hwrites, hlexemes, x, hx, hxkey⟩ := hopen.interns hall
  have hzero : Stands u.program.symbols Expr.zero ⟨.literal, token.line, some index⟩ :=
    ⟨rfl, index, x, rfl, hx, hxkey, kind_of_literal hxkey⟩
  have hopening : Stands s.program.symbols Expr.opening ⟨.openParen, token.line, none⟩ :=
    stands_of_key rfl
  have hminus : Stands u.program.symbols Expr.minus ⟨.minus, token.line, none⟩ := stands_of_key rfl
  have hat := (hu.addLexeme (l := ⟨.literal, token.line, some index⟩)).addLexeme
    (l := ⟨.minus, token.line, none⟩)
  have hall := (((writes_addLexeme hopening).trans hwrites).trans (writes_addLexeme hzero)).trans
    (writes_addLexeme (s := u.addLexeme _) hminus)
  exact ⟨_, .sign hk (h.expectsOperand.trans hallowed) room hi,
    ⟨hat.fits, hat.knows, hat.function, hat.scopes, hat.limit, rfl, hat.allowed⟩,
    hall.symbols, hall.capacity, hall.lexemes⟩

/-- A word that declares nothing, at a place; `called` tells that an opening parenthesis follows. -/
inductive Uses [Limits] (limit : Nat) (p : Place) (called : Bool) : Word → Nat → Prop
  | plain {k : Kind} (hfixed : k ∈ Kind.fixed) (hk : Program.Scan.isPlain k ∨ k = .minus)
    (hdeclares : k ≠ .fnWord ∧ k ≠ .letWord ∧ k ≠ .datatype) : Uses limit p called (.mark k) p.nest
  | opening {k : Kind} (hk : k = .openBrace ∨ k = .openParen) (hnest : p.nest < limit) :
    Uses limit p called (.mark k) (p.nest + 1)
  | closing {k : Kind} {nest : Nat} (hk : k = .closeBrace ∨ k = .closeParen)
    (hnest : p.nest = nest + 1) : Uses limit p called (.mark k) nest
  | integer {digits : String} (hdigits : Lexeme.isInteger digits.toList)
    (hmax : decimal digits ≤ Program.Scan.maxInteger) : Uses limit p called (.integer digits) p.nest
  | text {content : String} (hne : content ≠ "") (hquote : '\'' ∉ content.toList) :
    Uses limit p called (.text content) p.nest
  | var {name : String} {kind : SymbolKind} (hname : IsName name)
    (hkind : kind = .var ∨ kind = .parameter) (hd : ⟨p.scope, name, kind⟩ ∈ p.declared)
    (hself : name ≠ p.scope) (hcalled : called = false) (hnest : 0 < p.nest) :
    Uses limit p called (.var p.scope name) p.nest
  | callee {name : String} {arity : Nat} (hname : IsName name)
    (hd : ⟨Symbol.globalScope, name, .function⟩ ∈ p.declared) (hcalled : called) :
    Uses limit p called (.callee name arity) p.nest

theorem At.current (h : At all limit p signs s) (hnest : 0 < p.nest) :
    s.scopes.current = p.scope := by
  have hscopes := h.scopes
  obtain ⟨n, hn⟩ := Nat.exists_eq_succ_of_ne_zero (Nat.ne_of_gt hnest)
  rw [hn, List.replicate_succ, List.cons_append] at hscopes
  exact (List.cons.inj hscopes).1

theorem literal?_integer {digits : String} (hdigits : Lexeme.isInteger digits.toList)
    (hmax : decimal digits ≤ Program.Scan.maxInteger) :
    Program.Scan.literal? digits = some (.i32, Nat.repr (decimal digits)) := by
  rw [Program.Scan.literal?, Lexeme.ofText?_of_isInteger hdigits]
  unfold decimal at hmax
  simp only [Lexeme.decimal?_eq, if_pos hmax]
  rfl

theorem literal?_text {content : String} (hne : content ≠ "") (hquote : '\'' ∉ content.toList) :
    Program.Scan.literal? ("'" ++ content ++ "'") = some (.str, content) := by
  have hcontent : ("'" ++ content ++ "'").toList.tail.dropLast = content.toList := by
    simp [String.toList_append]
  rw [Program.Scan.literal?, Lexeme.ofText?_quoted hquote]
  simp only [hcontent]
  cases hlist : content.toList with
  | nil => exact absurd (String.toList_eq_nil_iff.mp hlist) hne
  | cons c rest =>
    show some (DataType.str, String.ofList (c :: rest)) = _
    rw [← hlist, String.ofList_toList]

theorem exists_enter {scopes : Scopes} (scope : String) (h : scopes.depth < scopes.maxDepth) :
    ∃ inner, scopes.enter scope = .ok inner ∧ inner.current = scope ∧
      inner.saved = scopes.current :: scopes.saved ∧ inner.maxDepth = scopes.maxDepth := by
  rw [Scopes.enter, if_neg (Nat.not_le.mpr h)]
  exact ⟨_, rfl, rfl, rfl, rfl⟩

theorem exists_exit {scopes : Scopes} {current : String} {saved : List String}
    (h : scopes.saved = current :: saved) :
    ∃ outer, scopes.exit = .ok outer ∧ outer.current = current ∧ outer.saved = saved ∧
      outer.maxDepth = scopes.maxDepth := by
  unfold Scopes.exit
  split
  · next hnil =>
    rw [h] at hnil
    cases hnil
  · next hcons =>
    rw [h] at hcons
    obtain ⟨rfl, rfl⟩ := List.cons.inj hcons
    exact ⟨_, rfl, rfl, rfl, rfl⟩

theorem At.depth (h : At all limit p signs s) : s.scopes.depth = p.nest := by
  have hlength := congrArg List.length h.scopes
  simp only [List.length_cons, List.length_append, List.length_replicate,
    List.length_nil] at hlength
  rw [s.scopes.depth_eq]
  omega

theorem At.opens (h : At all limit p signs s) (hnest : p.nest < limit) :
    ∃ scopes, s.scopes.enter s.function = .ok scopes ∧
      At all limit { p with nest := p.nest + 1 } signs { s with scopes } := by
  rw [← h.limit, ← h.depth] at hnest
  obtain ⟨inner, henter, hcurrent, hsaved, hmax⟩ := exists_enter s.function hnest
  refine ⟨inner, henter, h.fits, h.knows, h.function, ?_, hmax.trans h.limit, h.waiting, h.allowed⟩
  rw [hcurrent, hsaved, h.scopes, h.function, List.replicate_succ, List.cons_append]

theorem At.closes (h : At all limit p signs s) (hnest : p.nest = nest + 1) :
    ∃ scopes, s.scopes.exit = .ok scopes ∧
      At all limit { p with nest } signs { s with scopes } := by
  have hscopes := h.scopes
  rw [hnest, List.replicate_succ, List.cons_append] at hscopes
  have hsaved := (List.cons.inj hscopes).2
  obtain ⟨c, rest, hrest⟩ : ∃ c rest,
      List.replicate nest p.scope ++ [Symbol.globalScope] = c :: rest :=
    List.exists_cons_of_ne_nil (by simp)
  obtain ⟨outer, hexit, hcurrent, hsaved', hmax⟩ := exists_exit (hsaved.trans hrest)
  refine ⟨outer, hexit, h.fits, h.knows, h.function, ?_, hmax.trans h.limit, h.waiting, h.allowed⟩
  rw [hcurrent, hsaved', hrest]

/-- A mark that stands for itself. -/
theorem At.mark (h : At all limit p signs s) (k : Kind) (line : Nat)
    (hsign : ¬ (signs.allowed ∧ Word.mark k = Expr.minus)) :
    At all limit p (signs.next (.mark k)) (s.addLexeme ⟨k, line, none⟩) ∧
      Writes s (s.addLexeme ⟨k, line, none⟩) (signs.written (.mark k)) := by
  have hmark : Stands s.program.symbols (.mark k) ⟨k, line, none⟩ := stands_of_key rfl
  exact h.write hmark hsign (by simp [Word.isOperand])

theorem length_written_pos : 1 ≤ (signs.written w).length := by
  unfold Signs.written
  split
  · exact Nat.le_add_left 1 2
  · split
    · exact Nat.le_add_left 1 1
    · exact Nat.le_refl 1

theorem key_mem {key : Key} (hkeys : (signs.written w).filterMap Word.key? ⊆ all)
    (hkey : w.key? = some key) : key ∈ all := by
  have hsign : ¬ (signs.allowed ∧ w = Expr.minus) := by
    rintro ⟨-, rfl⟩
    cases hkey
  refine hkeys (List.mem_filterMap.mpr ⟨w, ?_, hkey⟩)
  rw [Signs.written, if_neg hsign]
  split <;> exact List.mem_cons_self

/-- A word that declares nothing is accepted and written. -/
theorem At.uses (h : At all limit p signs s) (hsettled : Settled s.program.lexemes.kinds)
    (hw : Uses limit p called w nest) (htext : token.text = w.spelling)
    (hkeys : (signs.written w).filterMap Word.key? ⊆ all)
    (room : s.HasRoom (signs.written w).length) :
    ∃ t, Step token called s t ∧ At all limit { p with nest } (signs.next w) t ∧
      Writes s t (signs.written w) := by
  have hroom : s.HasRoom 1 := by
    have hpos := @length_written_pos signs w
    unfold State.HasRoom at room ⊢
    omega
  cases hw with
  | @plain k hfixed hk =>
    have hk' : Kind.ofText? token.text = some k := htext ▸ Lexeme.ofText?_text hfixed
    by_cases hsign : signs.allowed ∧ Word.mark k = Expr.minus
    · have hwritten : signs.written (.mark k) = [Expr.opening, Expr.zero, Expr.minus] :=
        if_pos hsign
      have hnext : signs.next (.mark k) = ⟨true, false⟩ := if_pos hsign
      obtain rfl : k = .minus := Word.mark.inj hsign.2
      rw [hwritten] at hkeys room ⊢
      rw [hnext]
      exact h.sign hk' hsign.1 (hkeys (List.mem_filterMap.mpr ⟨Expr.zero, by simp, rfl⟩)) room
    · have hwritten := h.mark k token.line hsign
      rcases hk with hk | rfl
      · exact ⟨_, .plain hk' hk hroom, hwritten⟩
      · have hallowed : s.expectsOperand = false := by
          rw [h.expectsOperand]
          exact Bool.eq_false_iff.mpr fun ha => hsign ⟨ha, rfl⟩
        exact ⟨_, .minus hk' hallowed hroom, hwritten⟩
  | @opening k hk hnest =>
    have hminus : Word.mark k ≠ Expr.minus := by rcases hk with rfl | rfl <;> simp [Expr.minus]
    have hfixed : k ∈ Kind.fixed := by rcases hk with rfl | rfl <;> decide
    have hk' : Kind.ofText? token.text = some k := htext ▸ Lexeme.ofText?_text hfixed
    obtain ⟨scopes, henter, hat⟩ := h.opens hnest
    obtain ⟨hat, hwrites⟩ := hat.mark k token.line fun h => hminus h.2
    exact ⟨_, .enter hk' hk henter hroom,
      ⟨hat.fits, hat.knows, hat.function, hat.scopes, hat.limit, hat.waiting, hat.allowed⟩,
      hwrites.symbols, hwrites.capacity, hwrites.lexemes⟩
  | @closing k nest hk hnest =>
    have hminus : Word.mark k ≠ Expr.minus := by rcases hk with rfl | rfl <;> simp [Expr.minus]
    have hfixed : k ∈ Kind.fixed := by rcases hk with rfl | rfl <;> decide
    have hk' : Kind.ofText? token.text = some k := htext ▸ Lexeme.ofText?_text hfixed
    obtain ⟨scopes, hexit, hat⟩ := h.closes hnest
    obtain ⟨hat, hwrites⟩ := hat.mark k token.line fun h => hminus h.2
    exact ⟨_, .leave hk' hk hexit hroom,
      ⟨hat.fits, hat.knows, hat.function, hat.scopes, hat.limit, hat.waiting, hat.allowed⟩,
      hwrites.symbols, hwrites.capacity, hwrites.lexemes⟩
  | integer hdigits hmax =>
    exact h.literal (by rw [htext]; exact literal?_integer hdigits hmax) rfl (key_mem hkeys rfl)
      room
  | text hne hquote =>
    exact h.literal (by rw [htext]; exact literal?_text hne hquote) rfl (key_mem hkeys rfl) room
  | @var name kind hname hkind hd hself hcalled hnest =>
    have hcurrent := h.current hnest
    refine h.name hsettled (by rwa [htext]) ?_ hd ?_ htext.symm rfl rfl hkind room
    · intro heq
      rw [hcurrent, htext] at heq
      exact absurd heq hself
    · rw [State.lookupScope, hcalled, hcurrent]
      rfl
  | @callee name arity hname hd hcalled =>
    refine h.name hsettled (by rwa [htext]) (fun _ => hcalled) hd ?_ htext.symm rfl rfl rfl room
    rw [State.lookupScope, hcalled]
    rfl

end Ttm.Core
