import Ttm.Proofs.Core.Scan

/-! Scanning declarations, and whole texts word by word. -/
namespace Ttm.Core

open Lexeme (Kind)
open Program.Scan (State Step Resolves Refers)
open Source (Token)
open Ttm.Symbol (Declaration Key)

variable {limits : Limits} {all : List Key} {limit : Nat} {p q : Place} {signs : Signs}
  {s t u : State} {w : Word} {ws : List Word} {token : Token} {called : Bool} {line : Nat}
  {name : String} {kind : SymbolKind} {type : DataType} {d : Declaration} {earlier : List Kind}

theorem declarationKind?_function
    (hk : s.program.lexemes.kinds = earlier ++ [.fnWord, .datatype]) :
    s.program.lexemes.declaresFunction ∧ s.declarationKind? = some .function := by
  have hfunction : s.program.lexemes.declaresFunction := by
    simp [Lexeme.Table.declaresFunction, Lexeme.Table.kindFromEnd?_eq, hk]
  exact ⟨hfunction, by simp [State.declarationKind?, hfunction]⟩

theorem declarationKind?_var
    (hk : s.program.lexemes.kinds = earlier ++ [.letWord, .datatype]) :
    s.declarationKind? = some .var := by
  simp [State.declarationKind?, Lexeme.Table.declaresFunction, Lexeme.Table.declaresVariable,
    Lexeme.Table.kindFromEnd?_eq, hk]

theorem declarationKind?_parameter (hsettled : Settled earlier)
    (hk : s.program.lexemes.kinds = earlier ++ [.datatype]) :
    s.declarationKind? = some .parameter := by
  have hlast := hsettled.1
  cases hl : earlier.reverse[0]? with
  | none =>
    simp [State.declarationKind?, Lexeme.Table.declaresFunction, Lexeme.Table.declaresVariable,
      Lexeme.Table.declaresDatatype, Lexeme.Table.kindFromEnd?_eq, hk, hl]
  | some last =>
    have hlast := hlast last hl
    simp [State.declarationKind?, Lexeme.Table.declaresFunction, Lexeme.Table.declaresVariable,
      Lexeme.Table.declaresDatatype, Lexeme.Table.kindFromEnd?_eq, hk, hl, hlast]

theorem At.datatype (h : At all limit p signs s) (htype : type ≠ .undefined)
    (htext : token.text = type.name) (room : s.HasRoom 1) :
    ∃ t, Step token called s t ∧ At all limit p (signs.next (.datatype type)) t ∧
      Writes s t (signs.written (.datatype type)) ∧ t.pendingType = some type := by
  have hsign : ¬ (signs.allowed ∧ Word.datatype type = Expr.minus) := by simp [Expr.minus]
  have hat : At all limit p signs { s with pendingType := some type } :=
    ⟨h.fits, h.knows, h.function, h.scopes, h.limit, h.waiting, h.allowed⟩
  have hstands : Stands s.program.symbols (.datatype type) ⟨.datatype, token.line, none⟩ :=
    stands_of_key rfl
  obtain ⟨hat, hwrites⟩ := hat.write hstands hsign (by simp [Word.isOperand])
  obtain ⟨k, hk, htype⟩ : ∃ k, Kind.ofText? token.text = some k ∧
      Program.Scan.datatype? k = some type := by
    rw [htext]
    cases type with
    | i32 => exact ⟨.i32, rfl, rfl⟩
    | str => exact ⟨.str, rfl, rfl⟩
    | undefined => exact absurd rfl htype
  exact ⟨_, .datatype hk htype room, hat, ⟨hwrites.symbols, hwrites.capacity, hwrites.lexemes⟩, rfl⟩

theorem At.beginFunction (h : At all limit p signs s) (hnest : p.nest = 0) (name : String) :
    At all limit { p with scope := name } signs (s.beginFunction name) := by
  refine ⟨h.fits, h.knows, rfl, ?_, h.limit, h.waiting, h.allowed⟩
  have hscopes := h.scopes
  rw [hnest] at hscopes ⊢
  exact congrArg _ (List.cons.inj hscopes).2

/-- A new name takes its symbol. -/
theorem At.addDeclaration (h : At all limit p signs u) (type : DataType) (line : Nat)
    (hd : d = ⟨u.scopes.current, name, kind⟩) (hliteral : kind ≠ .literal) (hall : d.key ∈ all)
    (hnew : d.key ∉ p.declared.map (·.key)) :
    u.program.symbols.refusal? (u.declaration name kind type) = none ∧
      At all limit { p with declared := p.declared ++ [d] } signs
        (u.addDeclaration name kind type line) ∧
      Writes u (u.addDeclaration name kind type line) [] ∧
      ∃ x, (u.addDeclaration name kind type line).program.symbols.get? u.program.symbols.size =
        some x ∧ x.key = d.key ∧ x.kind = d.kind := by
  have hkey : (u.declaration name kind type).key = d.key := by
    rw [hd]
    exact Symbol.key_declared hliteral
  have hkind : (u.declaration name kind type).kind = d.kind := by
    rw [hd]
    rfl
  have hkeys : d.key ∉ u.program.symbols.keys := h.knows.not_mem_keys hnew
  have hr := h.fits.refusal?_eq_none (hkey ▸ hall) (hkey ▸ hkeys)
  refine ⟨hr, ⟨h.fits.add (hkey ▸ hall) (hkey ▸ hkeys), h.knows.addDeclaration hkey hkind hkeys,
    h.function, h.scopes, h.limit, h.waiting, h.allowed⟩, ?_, _, Symbol.Table.get?_add_self, hkey,
    hkind⟩
  exact writes_of_lexemes rfl fun _ _ hx => Symbol.Table.get?_add hx

theorem At.lookup_eq_none (h : At all limit p signs s)
    (hnew : .name d.scope d.name ∉ p.declared.map (·.key)) :
    s.program.symbols.lookup d.scope d.name = none :=
  h.fits.indexed.lookup_eq_none.mpr (h.knows.not_mem_keys hnew)

/-- The word of a new name is written. -/
theorem At.declare (h : At all limit p signs u) (hu : u.program = s.program) (type : DataType)
    (hd : d = ⟨u.scopes.current, name, kind⟩) (hliteral : kind ≠ .literal)
    (hnew : d.key ∉ p.declared.map (·.key)) (hkey : w.key? = some d.key) (hsuits : w.Suits d.kind)
    (hresolves : u.program.symbols.refusal? (u.declaration name kind type) = none →
      Resolves token called s w.kind u.program.symbols.size
        (u.addDeclaration name kind type token.line))
    (hkeys : (signs.written w).filterMap Word.key? ⊆ all)
    (room : s.HasRoom (signs.written w).length) :
    ∃ t, Step token called s t ∧
      At all limit { p with declared := p.declared ++ [d] } (signs.next w) t ∧
      Writes s t (signs.written w) := by
  obtain ⟨hr, hat, hwrites, x, hx, hxkey, hxkind⟩ :=
    h.addDeclaration type token.line hd hliteral (key_mem hkeys hkey) hnew
  have hwrites : Writes s (u.addDeclaration name kind type token.line) [] :=
    ⟨hu ▸ hwrites.symbols, hu ▸ hwrites.capacity, hu ▸ hwrites.lexemes⟩
  have hstands : Stands (u.addDeclaration name kind type token.line).program.symbols w
      ⟨w.kind, token.line, some u.program.symbols.size⟩ := by
    refine ⟨rfl, ?_⟩
    rw [Word.Points, hkey]
    exact ⟨_, x, rfl, hx, hxkey, hxkind ▸ hsuits⟩
  obtain ⟨t, ht, hat, hwritten⟩ := hat.refers hstands (hwrites.hasRoom.mpr (by simpa using room))
  refine ⟨t, .refer (hresolves hr) ht, hat, ?_⟩
  simpa using hwrites.trans hwritten

/-- The word that names a function in its definition. -/
def Names [Limits] (w : Word) (name : String) (type : DataType) : Prop :=
  w = .function name ∧ IsName name ∨ w = .entry ∧ name = Kind.mainWord.text ∧ type = .i32

theorem At.declareFunction (h : At all limit p signs s) (hnest : p.nest = 0)
    (hkinds : s.program.lexemes.kinds = earlier ++ [.fnWord, .datatype])
    (htype : s.pendingType = some type) (hword : Names w name type)
    (htext : token.text = w.spelling)
    (hnew : .name Symbol.globalScope name ∉ p.declared.map (·.key))
    (hkeys : (signs.written w).filterMap Word.key? ⊆ all)
    (room : s.HasRoom (signs.written w).length) :
    ∃ t, Step token called s t ∧
      At all limit { p with
        scope := name, declared := p.declared ++ [⟨Symbol.globalScope, name, .function⟩] }
        (signs.next w) t ∧
      Writes s t (signs.written w) := by
  have hprepare : s.prepare .function name = s.beginFunction name := if_pos rfl
  have hcurrent : s.scopes.current = Symbol.globalScope := by
    have hscopes := h.scopes
    rw [hnest] at hscopes
    exact (List.cons.inj hscopes).1
  have hlookup := h.lookup_eq_none (d := ⟨Symbol.globalScope, name, .function⟩) hnew
  obtain ⟨hfunction, hkind⟩ := declarationKind?_function hkinds
  rcases hword with ⟨rfl, hname⟩ | ⟨rfl, rfl, rfl⟩
  · obtain rfl : token.text = name := htext
    refine (h.beginFunction hnest token.text).declare rfl type rfl (by decide) hnew rfl rfl
      (fun hr => ?_) hkeys room
    rw [← hprepare] at hr ⊢
    refine .declared hname (fun heq => ?_) ?_ hkind htype hr
    · rw [heq, hcurrent] at hname
      exact absurd hname nofun
    · rw [State.lookupScope, hcurrent, ite_self]
      exact hlookup
  · refine (h.beginFunction hnest Kind.mainWord.text).declare rfl .i32 rfl (by decide) hnew rfl rfl
      (fun hr => ?_) hkeys room
    have hmain : Kind.ofText? token.text = some .mainWord := by
      rw [htext]
      rfl
    exact .mainDeclared hmain hlookup hfunction htype hr

theorem At.declareVariable (h : At all limit p signs s) (hnest : 0 < p.nest)
    (hkind : s.declarationKind? = some kind) (hvar : kind = .var ∨ kind = .parameter)
    (htype : s.pendingType = some type) (hname : IsName name) (hself : name ≠ p.scope)
    (htext : token.text = name) (hnew : .name p.scope name ∉ p.declared.map (·.key))
    (hkeys : (signs.written (.var p.scope name)).filterMap Word.key? ⊆ all)
    (room : s.HasRoom (signs.written (.var p.scope name)).length) :
    ∃ t, Step token false s t ∧
      At all limit { p with declared := p.declared ++ [⟨p.scope, name, kind⟩] }
        (signs.next (.var p.scope name)) t ∧
      Writes s t (signs.written (.var p.scope name)) := by
  have hprepare : s.prepare kind name = s := by
    rcases hvar with rfl | rfl <;> rfl
  have hcurrent := h.current hnest
  have hliteral : kind ≠ .literal := by rcases hvar with rfl | rfl <;> decide
  have hlookup := h.lookup_eq_none (d := ⟨p.scope, name, kind⟩) hnew
  subst htext
  refine h.declare rfl type (by rw [hcurrent]) hliteral hnew rfl hvar (fun hr => ?_) hkeys room
  have hresolves : Resolves token false s .identifier s.program.symbols.size
      ((s.prepare kind token.text).addDeclaration token.text kind type token.line) := by
    refine .declared hname (fun heq => ?_) ?_ hkind htype (by rwa [hprepare])
    · exact absurd (heq.trans hcurrent) hself
    · rw [State.lookupScope, hcurrent]
      exact hlookup
  rwa [hprepare] at hresolves

/-- Whether an opening parenthesis comes next. -/
def opens (ws : List Word) : Bool := ws.head?.any (·.spelling == "(")

/-- Words that can be read from one place to another. -/
inductive Readable [Limits] (limit : Nat) : Place → List Word → Place → Prop
  | done {p : Place} : Readable limit p [] p
  | word {p q : Place} {nest : Nat} {w : Word} {ws : List Word}
    (hw : Uses limit p (opens ws) w nest) (rest : Readable limit { p with nest } ws q) :
    Readable limit p (w :: ws) q
  | function {p q : Place} {type : DataType} {name : String} {w : Word} {ws : List Word}
    (hnest : p.nest = 0) (htype : type ≠ .undefined) (hword : Names w name type)
    (hnew : .name Symbol.globalScope name ∉ p.declared.map (·.key))
    (rest : Readable limit { p with
      scope := name, declared := p.declared ++ [⟨Symbol.globalScope, name, .function⟩] } ws q) :
    Readable limit p (.mark .fnWord :: .datatype type :: w :: ws) q
  | parameter {p q : Place} {type : DataType} {name : String} {ws : List Word}
    (hnest : 0 < p.nest) (htype : type ≠ .undefined) (hname : IsName name) (hself : name ≠ p.scope)
    (hopens : opens ws = false) (hnew : .name p.scope name ∉ p.declared.map (·.key))
    (rest : Readable limit { p with
      declared := p.declared ++ [⟨p.scope, name, .parameter⟩] } ws q) :
    Readable limit p (.datatype type :: .var p.scope name :: ws) q
  | localVariable {p q : Place} {type : DataType} {name : String} {ws : List Word}
    (hnest : 0 < p.nest) (htype : type ≠ .undefined) (hname : IsName name) (hself : name ≠ p.scope)
    (hopens : opens ws = false) (hnew : .name p.scope name ∉ p.declared.map (·.key))
    (rest : Readable limit { p with declared := p.declared ++ [⟨p.scope, name, .var⟩] } ws q) :
    Readable limit p (.mark .letWord :: .datatype type :: .var p.scope name :: ws) q

/-- The tables take lexemes for these words. -/
def Admits (all : List Key) (s : State) (ws : List Word) : Prop :=
  ws.filterMap Word.key? ⊆ all ∧ s.HasRoom ws.length

theorem Admits.left {xs ys : List Word} (h : Admits all s (xs ++ ys)) : Admits all s xs := by
  obtain ⟨hkeys, room⟩ := h
  rw [List.filterMap_append] at hkeys
  refine ⟨List.Subset.trans (List.subset_append_left _ _) hkeys, ?_⟩
  rw [List.length_append] at room
  unfold State.HasRoom at room ⊢
  omega

theorem Admits.right {xs ys : List Word} (h : Admits all s (xs ++ ys)) (hw : Writes s t xs) :
    Admits all t ys := by
  obtain ⟨hkeys, room⟩ := h
  rw [List.filterMap_append] at hkeys
  refine ⟨List.Subset.trans (List.subset_append_right _ _) hkeys, ?_⟩
  rwa [List.length_append, ← hw.hasRoom] at room

theorem Admits.one (h : Admits all s (signs.written w)) : s.HasRoom 1 := by
  have hpos := @length_written_pos signs w
  have room := h.2
  unfold State.HasRoom at room ⊢
  omega

theorem opensCall_eq {tokens : List Token} (h : tokens.map (·.text) = ws.map Word.spelling) :
    Program.Scan.opensCall tokens = opens ws := by
  cases tokens with
  | nil =>
    cases ws with
    | nil => rfl
    | cons => cases h
  | cons token tokens =>
    cases ws with
    | nil => cases h
    | cons w ws =>
      have htext : token.text = w.spelling := (List.cons.inj h).1
      show (token.text == "(") = (w.spelling == "(")
      rw [htext]

theorem Uses.declares_nothing {nest : Nat} (h : Uses limit p called w nest) :
    ∀ k ∈ (signs.written w).map Word.kind, k ≠ .fnWord ∧ k ≠ .letWord ∧ k ≠ .datatype := by
  have hkind : w.kind ≠ .fnWord ∧ w.kind ≠ .letWord ∧ w.kind ≠ .datatype := by
    cases h with
    | plain _ _ hk => exact hk
    | opening hk | closing hk => rcases hk with rfl | rfl <;> decide
    | integer | text | var | callee => simp [Word.kind]
  unfold Signs.written
  split
  · decide
  · split
    · intro k hk
      rcases List.mem_cons.mp hk with rfl | hk
      · exact hkind
      · obtain rfl := List.mem_singleton.mp hk
        decide
    · intro k hk
      rw [List.map_singleton, List.mem_singleton] at hk
      rwa [hk]

/-- What scanning the rest of a text comes to. -/
def Reads [Limits] (all : List Key) (limit : Nat) (q : Place) (signs : Signs) (ws : List Word)
    (s : State) : Prop :=
  ∀ tokens : List Token, tokens.map (·.text) = ws.map Word.spelling →
    Admits all s (signs.rewrite ws) →
    ∃ t, Program.Scan.scanTokens tokens s = .ok () t ∧ At all limit q (signs.after ws) t ∧
      Writes s t (signs.rewrite ws)

theorem reads_cons
    (hstep : ∀ token : Token, token.text = w.spelling → Admits all s (signs.written w) →
      ∃ u, Step token (opens ws) s u ∧ Writes s u (signs.written w) ∧
        Reads all limit q (signs.next w) ws u) :
    Reads all limit q signs (w :: ws) s := by
  intro tokens htext hadmits
  cases tokens with
  | nil => cases htext
  | cons token tokens =>
    obtain ⟨htoken, htokens⟩ := List.cons.inj htext
    obtain ⟨u, hu, hwrites, hrest⟩ := hstep token htoken hadmits.left
    obtain ⟨t, ht, hat, hwritten⟩ := hrest tokens htokens (hadmits.right hwrites)
    refine ⟨t, ?_, hat, hwrites.trans hwritten⟩
    rw [Program.Scan.scanTokens_cons_eq_ok, opensCall_eq htokens]
    exact ⟨u, hu, ht⟩

theorem written_mark {k : Kind} (hk : (k == .minus) = false) :
    signs.written (.mark k) = [.mark k] := by
  simp [Signs.written, Expr.minus, Word.isOperand, beq_eq_false_iff_ne.mp hk]

theorem written_datatype : signs.written (.datatype type) = [.datatype type] := by
  simp [Signs.written, Expr.minus, Word.isOperand]

theorem At.keyword (h : At all limit p signs s) {k : Kind} (hk : k = .fnWord ∨ k = .letWord)
    (htext : token.text = k.text) (room : s.HasRoom 1) :
    ∃ t, Step token called s t ∧ At all limit p (signs.next (.mark k)) t ∧
      Writes s t (signs.written (.mark k)) := by
  have hfixed : k ∈ Kind.fixed := by rcases hk with rfl | rfl <;> decide
  have hplain : Program.Scan.isPlain k := by rcases hk with rfl | rfl <;> rfl
  have hsign : ¬ (signs.allowed ∧ Word.mark k = Expr.minus) := by
    rcases hk with rfl | rfl <;> simp [Expr.minus]
  exact ⟨_, .plain (htext ▸ Lexeme.ofText?_text hfixed) hplain room, h.mark k token.line hsign⟩

theorem settled_name (hw : w.kind = .identifier ∨ w.kind = .mainWord) :
    Settled (earlier ++ [.datatype] ++ (signs.written w).map Word.kind) := by
  have hname : Settled (earlier ++ [.datatype] ++ [w.kind]) :=
    settled_append_two (by decide) (by rcases hw with hw | hw <;> simp [hw])
  have hsign : ¬ (signs.allowed ∧ w = Expr.minus) := by
    rintro ⟨-, rfl⟩
    rcases hw with hw | hw <;> cases hw
  rw [Signs.written, if_neg hsign]
  split
  · have hclosing := @Settled.append _ [.closeParen] hname (by decide)
    rwa [List.append_assoc] at hclosing
  · exact hname

/-- Readable words are scanned, and written with their signs written out. -/
theorem Readable.reads (h : Readable limit p ws q) (hs : At all limit p signs s)
    (hsettled : Settled s.program.lexemes.kinds) : Reads all limit q signs ws s := by
  induction h generalizing signs s with
  | done =>
    intro tokens htext _
    obtain rfl : tokens = [] := List.map_eq_nil_iff.mp htext
    exact ⟨s, rfl, hs, .refl⟩
  | word hw rest ih =>
    refine reads_cons fun token htext hadmits => ?_
    obtain ⟨t, ht, hat, hwritten⟩ := hs.uses hsettled hw htext hadmits.1 hadmits.2
    refine ⟨t, ht, hwritten, ih hat ?_⟩
    rw [hwritten.kinds]
    exact hsettled.append hw.declares_nothing
  | @function p q type name w ws hnest htype hword hnew rest ih =>
    refine reads_cons fun token htext hadmits => ?_
    obtain ⟨t, ht, hat, hwritten⟩ := hs.keyword (Or.inl rfl) htext hadmits.one
    refine ⟨t, ht, hwritten, reads_cons fun token htext hadmits => ?_⟩
    obtain ⟨u, hu, hat, hwritten', hpending⟩ := hat.datatype htype htext hadmits.one
    refine ⟨u, hu, hwritten', reads_cons fun token htext hadmits => ?_⟩
    have hkinds : u.program.lexemes.kinds =
        s.program.lexemes.kinds ++ [.fnWord] ++ [.datatype] := by
      rw [hwritten'.kinds, hwritten.kinds, written_mark rfl, written_datatype]
      rfl
    obtain ⟨v, hv, hat, hname⟩ := hat.declareFunction hnest (by simpa using hkinds) hpending hword
      htext hnew hadmits.1 hadmits.2
    refine ⟨v, hv, hname, ih hat ?_⟩
    rw [hname.kinds, hkinds]
    refine settled_name ?_
    rcases hword with ⟨rfl, -⟩ | ⟨rfl, -⟩
    · exact Or.inl rfl
    · exact Or.inr rfl
  | @parameter p q type name ws hnest htype hname hself hopens hnew rest ih =>
    refine reads_cons fun token htext hadmits => ?_
    obtain ⟨t, ht, hat, hwritten, hpending⟩ := hs.datatype htype htext hadmits.one
    refine ⟨t, ht, hwritten, reads_cons fun token htext hadmits => ?_⟩
    have hkinds : t.program.lexemes.kinds = s.program.lexemes.kinds ++ [.datatype] := by
      rw [hwritten.kinds, written_datatype]
      rfl
    obtain ⟨u, hu, hat, hvar⟩ := hat.declareVariable hnest
      (declarationKind?_parameter hsettled hkinds) (Or.inr rfl) hpending hname hself htext hnew
      hadmits.1 hadmits.2
    refine ⟨u, hopens ▸ hu, hvar, ih hat ?_⟩
    rw [hvar.kinds, hkinds]
    exact settled_name (Or.inl rfl)
  | @localVariable p q type name ws hnest htype hname hself hopens hnew rest ih =>
    refine reads_cons fun token htext hadmits => ?_
    obtain ⟨t, ht, hat, hwritten⟩ := hs.keyword (Or.inr rfl) htext hadmits.one
    refine ⟨t, ht, hwritten, reads_cons fun token htext hadmits => ?_⟩
    obtain ⟨u, hu, hat, hwritten', hpending⟩ := hat.datatype htype htext hadmits.one
    refine ⟨u, hu, hwritten', reads_cons fun token htext hadmits => ?_⟩
    have hkinds : u.program.lexemes.kinds =
        s.program.lexemes.kinds ++ [.letWord] ++ [.datatype] := by
      rw [hwritten'.kinds, hwritten.kinds, written_mark rfl, written_datatype]
      rfl
    obtain ⟨v, hv, hat, hvar⟩ := hat.declareVariable hnest
      (declarationKind?_var (by simpa using hkinds)) (Or.inl rfl) hpending hname hself htext hnew
      hadmits.1 hadmits.2
    refine ⟨v, hopens ▸ hv, hvar, ih hat ?_⟩
    rw [hvar.kinds, hkinds]
    exact settled_name (Or.inl rfl)

end Ttm.Core
