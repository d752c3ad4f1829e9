import Ttm.Proofs.Program.Interruption

/-!
What an action of a scan notes. An error is noted where it is raised and nowhere else. The settings
select among the other notes and decide nothing besides, so a run is compared with the one that all
is asked of.
-/
namespace Ttm.Program

open Lexeme (Kind)
open Source (Token)

/-- Errors for brackets, found at one of them or at the end. -/
def Error.ofBrackets : Error → Bool
  | .unbalancedBrackets .. | .scopeTooDeep .. => true
  | _ => false

def Note.isFailure : Note → Bool
  | .failed _ => true
  | _ => false

/-- Whether the settings ask for a note. -/
def Note.asked (settings : ScanSettings) : Note → Bool
  | .declared .. => settings.logSymbols
  | .entered .. | .left .. => settings.logScopes
  | .failed _ => true

/-- The settings that ask for every note. -/
def allNotes : ScanSettings where
  logSymbols := true
  logScopes := true

namespace Scan

/-- Notes of what went well. -/
def Quiet (notes : List Note) : Prop := ∀ n ∈ notes, n.isFailure = false

/-- A state that all notes were kept in, as other settings would have it. -/
def State.under (s : State) (settings : ScanSettings) : State :=
  { s with settings, notes := s.notes.filter (·.asked settings) }

/-- Under other settings an action ends as it does where every note is asked for. -/
inductive Same (settings : ScanSettings) {α : Type} :
    EStateM.Result Error State α → EStateM.Result Error State α → Prop
  | ok {x : α} {t : State} (full : t.settings = allNotes) :
    Same settings (.ok x t) (.ok x (t.under settings))
  | error {e : Error} {t : State} : Same settings (.error e t) (.error e (t.under settings))

/-- The action fails with errors of `E` only, and notes a failure last, and just where it fails. -/
structure Raises {α : Type} (E : Error → Prop) (a : Action α) : Prop where
  ok : ∀ s x t, a s = .ok x t → ∃ more, Quiet more ∧ t.notes = more ++ s.notes
  error : ∀ s e t, a s = .error e t →
    E e ∧ ∃ more, Quiet more ∧ t.notes = .failed e :: (more ++ s.notes)
  same : ∀ settings s, s.settings = allNotes → Same settings (a s) (a (s.under settings))

/-- Errors at a line that are not for its brackets. -/
def Ordinary (line : Nat) (e : Error) : Prop := e.line = some line ∧ e.ofBrackets = false

variable {limits : Limits} {settings : ScanSettings} {α β : Type} {E F : Error → Prop}
  {a a' : Action α} {f : α → Action β} {x : α} {e : Error} {line : Nat} {called : Bool}
  {name : String} {kind : SymbolKind} {token : Token} {notes notes' : List Note} {n : Note}
  {s : State} {g : State → State}

theorem quiet_nil : Quiet [] := fun _ h => by cases h

theorem Quiet.append (h : Quiet notes) (h' : Quiet notes') : Quiet (notes ++ notes') :=
  List.forall_mem_append.mpr ⟨h, h'⟩

/-- Where every note is asked for, a note is kept under the settings that ask for it. -/
theorem under_tell {all asked : Bool} (hall : all = true) (hasked : asked = n.asked settings) :
    (s.tell all n).under settings = (s.under settings).tell asked n := by
  subst hall hasked
  simp only [State.tell, State.under, if_true, List.filter_cons]

theorem Same.bind (h : Same settings (a s) (a (s.under settings)))
    (hf : ∀ x t, t.settings = allNotes → Same settings (f x t) (f x (t.under settings))) :
    Same settings ((a >>= f) s) ((a >>= f) (s.under settings)) := by
  show Same settings (EStateM.bind a f s) (EStateM.bind a f (s.under settings))
  unfold EStateM.bind
  generalize a s = u at h ⊢
  generalize a (s.under settings) = v at h ⊢
  cases h with
  | ok full => exact hf _ _ full
  | error => exact .error

theorem same_raise : Same settings ((raise e : Action α) s) (raise e (s.under settings)) :=
  .error (t := s.note (.failed e))

theorem same_tell {all asked : Bool} (full : s.settings = allNotes) (hall : all = true)
    (hasked : asked = n.asked settings) :
    Same settings (.ok x (s.tell all n)) (.ok x ((s.under settings).tell asked n)) := by
  rw [← under_tell hall hasked]
  exact .ok full

theorem Raises.mono (h : Raises E a) (hE : ∀ e, E e → F e) : Raises F a :=
  ⟨h.ok, fun s e t ha => ⟨hE e (h.error s e t ha).1, (h.error s e t ha).2⟩, h.same⟩

theorem Raises.bind (ha : Raises E a) (hf : ∀ x, Raises E (f x)) : Raises E (a >>= f) := by
  constructor
  · intro s y t h
    obtain ⟨x, u, hu, ht⟩ := bind_eq_ok.mp h
    obtain ⟨more, hmore, hnotes⟩ := ha.ok s x u hu
    obtain ⟨more', hmore', hnotes'⟩ := (hf x).ok u y t ht
    exact ⟨more' ++ more, hmore'.append hmore, by rw [hnotes', hnotes, List.append_assoc]⟩
  · intro s e t h
    rcases bind_eq_error.mp h with h | ⟨x, u, hu, ht⟩
    · exact ha.error s e t h
    · obtain ⟨more, hmore, hnotes⟩ := ha.ok s x u hu
      obtain ⟨he, more', hmore', hnotes'⟩ := (hf x).error u e t ht
      exact ⟨he, more' ++ more, hmore'.append hmore, by rw [hnotes', hnotes, List.append_assoc]⟩
  · intro settings s hs
    exact (ha.same settings s hs).bind fun x t => (hf x).same settings t

/-- What is read off the state does not depend on the settings. -/
theorem Raises.get_bind {f : State → Action β}
    (hsame : ∀ settings s, f (s.under settings) = f s) (hf : ∀ s, Raises E (f s)) :
    Raises E (get >>= f) := by
  constructor
  · exact fun s => (hf s).ok s
  · exact fun s => (hf s).error s
  · intro settings s hs
    rw [Scan.get_bind, Scan.get_bind, hsame]
    exact (hf s).same settings s hs

theorem Raises.ite {c : Prop} [Decidable c] (ha : Raises E a) (ha' : Raises E a') :
    Raises E (if c then a else a') := by
  split
  · exact ha
  · exact ha'

theorem raises_pure : Raises E (pure x : Action α) := by
  constructor
  · intro s y t h
    obtain ⟨-, rfl⟩ := pure_eq_ok.mp h
    exact ⟨[], quiet_nil, rfl⟩
  · exact fun s e t h => (pure_eq_error.mp h).elim
  · exact fun settings s hs => .ok hs

/-- A change of the state that has nothing to do with notes and settings. -/
theorem raises_modify
    (h : ∀ settings notes s, g { s with settings, notes } = { g s with settings, notes }) :
    Raises E (modify g) := by
  have hself (s : State) : g s = { g s with settings := s.settings, notes := s.notes } :=
    h s.settings s.notes s
  have hsettings (s : State) : (g s).settings = s.settings := by rw [hself s]
  have hnotes (s : State) : (g s).notes = s.notes := by rw [hself s]
  constructor
  · intro s y t hs
    obtain rfl := modify_eq_ok.mp hs
    exact ⟨[], quiet_nil, hnotes s⟩
  · exact fun s e t hs => (modify_eq_error.mp hs).elim
  · intro settings s hs
    have hunder : g (s.under settings) = (g s).under settings := by
      rw [State.under, State.under, h, hnotes]
    show Same settings (.ok _ (g s)) (.ok _ (g (s.under settings)))
    rw [hunder]
    exact .ok ((hsettings s).trans hs)

theorem exists_tell (asked : Bool) (hn : n.isFailure = false) :
    ∃ more, Quiet more ∧ (s.tell asked n).notes = more ++ s.notes := by
  cases asked with
  | true => exact ⟨[n], List.forall_mem_singleton.mpr hn, rfl⟩
  | false => exact ⟨[], quiet_nil, rfl⟩

theorem raises_raise (he : E e) : Raises E (raise e : Action α) := by
  constructor
  · exact fun s y t h => (raise_eq_ok.mp h).elim
  · intro s e' t h
    obtain ⟨rfl, rfl⟩ := raise_eq_error.mp h
    exact ⟨he, [], quiet_nil, rfl⟩
  · exact fun settings s _ => same_raise

/-- What is checked before an action may fail in its stead. -/
theorem Raises.check {c : Prop} [Decidable c] (he : E e) (ha : Raises E a) :
    Raises E (if c then raise e >>= fun _ : Unit => a else a) :=
  ((raises_raise he).bind fun _ => ha).ite ha

theorem raises_emit {k : Kind} {symbol : Option Nat} :
    Raises (Ordinary line) (emit k line symbol) := by
  constructor
  · intro s y t h
    obtain ⟨-, rfl⟩ := emit_eq_ok.mp h
    exact ⟨[], quiet_nil, rfl⟩
  · intro s e t h
    obtain ⟨-, rfl, rfl⟩ := emit_eq_error.mp h
    exact ⟨⟨rfl, rfl⟩, [], quiet_nil, rfl⟩
  · intro settings s hs
    show Same settings _ (if s.program.lexemes.isFull then _ else _)
    unfold emit
    split
    · exact same_raise
    · exact .ok (t := s.addLexeme _) hs

theorem ordinary_ofTableError {cause : Symbol.TableError} :
    Ordinary line (ofTableError line cause) := by
  cases cause <;> exact ⟨rfl, rfl⟩

theorem raises_insertSymbol {symbol : Symbol} :
    Raises (Ordinary line) (insertSymbol symbol line) := by
  constructor
  · intro s y t h
    obtain ⟨-, -, rfl⟩ := insertSymbol_eq_ok.mp h
    exact ⟨[], quiet_nil, rfl⟩
  · intro s e t h
    obtain ⟨cause, -, rfl, rfl⟩ := insertSymbol_eq_error.mp h
    exact ⟨ordinary_ofTableError, [], quiet_nil, rfl⟩
  · intro settings s hs
    have hprogram : (s.under settings).program = s.program := rfl
    unfold insertSymbol
    rw [hprogram]
    split
    · exact same_raise
    · exact .ok (t := s.addSymbol symbol) hs

/-- A declaration is noted as it uses up the pending type. -/
theorem raises_declared {scope : String} {type : DataType} {f : Metrics → Metrics} :
    Raises E (modify fun s =>
      { (s.tell s.settings.logSymbols (.declared name scope kind type line)).count f with
        pendingType := none }) := by
  constructor
  · intro s y t h
    obtain rfl := modify_eq_ok.mp h
    exact exists_tell _ rfl
  · exact fun s e t h => (modify_eq_error.mp h).elim
  · intro settings s hs
    have htell := under_tell (s := s) (n := .declared name scope kind type line)
      (congrArg ScanSettings.logSymbols hs) (rfl : settings.logSymbols = _)
    show Same settings (.ok _ { (s.tell s.settings.logSymbols _).count f with pendingType := none })
      (.ok _ { ((s.under settings).tell settings.logSymbols _).count f with pendingType := none })
    rw [← htell]
    exact .ok (t := { (s.tell s.settings.logSymbols _).count f with pendingType := none }) hs

theorem raises_insertDeclaration :
    Raises (Ordinary line) (insertDeclaration name kind line) := by
  refine .get_bind (fun _ _ => rfl) fun s => ?_
  split
  · exact raises_raise ⟨rfl, rfl⟩
  · exact raises_insertSymbol.bind fun _ =>
      raises_declared.bind fun _ => raises_pure

theorem raises_declare : Raises (Ordinary line) (declare name line) := by
  refine .get_bind (fun _ _ => rfl) fun s => ?_
  split
  · exact raises_raise ⟨rfl, rfl⟩
  · exact ((raises_modify fun _ _ _ => rfl).bind fun _ => raises_insertDeclaration).ite
      raises_insertDeclaration

theorem raises_closeSign : Raises (Ordinary line) (closeSign line) :=
  raises_emit.bind fun _ => raises_modify fun _ _ _ => rfl

theorem raises_intern {type : DataType} {value : String} :
    Raises (Ordinary line) (intern type value line) := by
  refine .get_bind (fun _ _ => rfl) fun s => ?_
  split
  · exact (raises_modify fun _ _ _ => rfl).bind fun _ => raises_pure
  · exact raises_insertSymbol.bind fun _ =>
      (raises_modify fun _ _ _ => rfl).bind fun _ => raises_pure

theorem raises_scanLiteral {type : DataType} {value : String} :
    Raises (Ordinary line) (scanLiteral type value line) :=
  raises_intern.bind fun _ => raises_emit.bind fun _ => .get_bind (fun _ _ => rfl) fun _ =>
    raises_closeSign.ite raises_pure

theorem raises_scanIdentifier : Raises (Ordinary line) (scanIdentifier name line called) := by
  have hrefers (symbol : Nat) : Raises (Ordinary line) (do
      emit .identifier line (some symbol)
      let s ← get
      if s.signOpen ∧ !s.program.symbols.isFunction symbol then closeSign line) :=
    raises_emit.bind fun _ => .get_bind (fun _ _ => rfl) fun _ => raises_closeSign.ite raises_pure
  refine .get_bind (fun _ _ => rfl) fun s => .check ⟨rfl, rfl⟩ ?_
  split
  · exact ((raises_raise ⟨rfl, rfl⟩).bind hrefers).ite (raises_pure.bind hrefers)
  · exact raises_declare.bind hrefers

theorem raises_scanMain : Raises (Ordinary line) (scanMain line) := by
  refine .get_bind (fun _ _ => rfl) fun s => ?_
  split
  · exact ((raises_raise ⟨rfl, rfl⟩).bind fun _ => raises_emit).ite
      (raises_pure.bind fun _ => raises_emit)
  · refine .check ⟨rfl, rfl⟩ (.check ⟨rfl, rfl⟩ ?_)
    exact (raises_modify fun _ _ _ => rfl).bind fun _ =>
      raises_insertDeclaration.bind fun _ => raises_emit

theorem raises_scanDatatype {type : DataType} : Raises (Ordinary line) (scanDatatype type line) :=
  (raises_modify fun _ _ _ => rfl).bind fun _ => raises_emit

theorem raises_openSign : Raises (Ordinary line) (openSign line) :=
  raises_emit.bind fun _ => raises_intern.bind fun _ => raises_emit.bind fun _ =>
    raises_emit.bind fun _ => raises_modify fun _ _ _ => rfl

theorem raises_scanInteger {text : String} : Raises (Ordinary line) (scanInteger text line) := by
  unfold scanInteger
  split
  · exact raises_raise ⟨rfl, rfl⟩
  · exact raises_scanLiteral

theorem raises_scanString {text : String} : Raises (Ordinary line) (scanString text line) := by
  unfold scanString
  split
  · exact raises_raise ⟨rfl, rfl⟩
  · exact raises_scanLiteral

theorem raises_registerLibrary : Raises (Ordinary line) (registerLibrary line) := by
  constructor
  · intro s y t h
    obtain ⟨n, symbols, -, rfl⟩ := registerLibrary_eq_ok.mp h
    exact ⟨[], quiet_nil, rfl⟩
  · intro s e t h
    refine ⟨?_, [], quiet_nil, by rw [registerLibrary_eq_error h]; rfl⟩
    unfold registerLibrary at h
    split at h <;> cases h
    exact ordinary_ofTableError
  · intro settings s hs
    have hprogram : (s.under settings).program = s.program := rfl
    unfold registerLibrary
    rw [hprogram]
    split
    · exact .ok (t := { s with program.symbols := _ }) hs
    · exact .error (t := { s with program.symbols := _ }.note (.failed _))

theorem raises_enterScope : Raises (·.line = some line) (enterScope line) := by
  constructor
  · intro s y t h
    obtain ⟨scopes, -, rfl⟩ := enterScope_eq_ok.mp h
    exact exists_tell _ rfl
  · intro s e t h
    refine ⟨?_, [], quiet_nil, by rw [enterScope_eq_error h]; rfl⟩
    unfold enterScope at h
    split at h <;> cases h <;> rfl
  · intro settings s hs
    have hscopes : (s.under settings).scopes = s.scopes := rfl
    have hfunction : (s.under settings).function = s.function := rfl
    unfold enterScope
    rw [hscopes, hfunction]
    cases s.scopes.enter s.function with
    | ok scopes =>
      exact same_tell (s := { s with scopes }) hs (congrArg ScanSettings.logScopes hs) rfl
    | error fault => cases fault <;> exact same_raise

theorem raises_leaveScope : Raises (·.line = some line) (leaveScope line) := by
  constructor
  · intro s y t h
    obtain ⟨scopes, -, rfl⟩ := leaveScope_eq_ok.mp h
    exact exists_tell _ rfl
  · intro s e t h
    refine ⟨?_, [], quiet_nil, by rw [leaveScope_eq_error h]; rfl⟩
    unfold leaveScope at h
    split at h <;> cases h
    rfl
  · intro settings s hs
    have hscopes : (s.under settings).scopes = s.scopes := rfl
    unfold leaveScope
    rw [hscopes]
    cases s.scopes.exit with
    | ok scopes =>
      exact same_tell (s := { s with scopes }) hs (congrArg ScanSettings.logScopes hs) rfl
    | error fault => exact same_raise

/-- Brackets apart, a token fails as `Ordinary` tells. -/
theorem raises_scanToken_of_ne (h : ∀ k, Kind.ofText? token.text = some k →
    ¬ (k = .openBrace ∨ k = .openParen) ∧ ¬ (k = .closeBrace ∨ k = .closeParen)) :
    Raises (Ordinary token.line) (scanToken token called) := by
  unfold scanToken
  split
  · exact raises_raise ⟨rfl, rfl⟩
  · exact raises_scanDatatype
  · exact raises_scanDatatype
  · exact raises_scanMain
  · exact raises_scanIdentifier
  · exact raises_scanInteger
  · exact raises_scanString
  · exact .get_bind (fun _ _ => rfl) fun s => raises_openSign.ite raises_emit
  · next k _ _ _ _ _ _ _ hk =>
    obtain ⟨hopen, hclose⟩ := h k hk
    simp only [hopen, hclose, if_false]
    exact raises_emit

/-- A token fails at its own line. -/
theorem raises_scanToken : Raises (·.line = some token.line) (scanToken token called) := by
  have hemit {k : Kind} : Raises (·.line = some token.line) (emit k token.line) :=
    raises_emit.mono fun _ he => he.1
  by_cases hbracket : ∃ k, Kind.ofText? token.text = some k ∧
      ((k = .openBrace ∨ k = .openParen) ∨ (k = .closeBrace ∨ k = .closeParen))
  · obtain ⟨k, hk, hopen | hclose⟩ := hbracket
    · rw [scanToken_of_opening hk hopen]
      exact raises_enterScope.bind fun _ => hemit
    · rw [scanToken_of_closing hk hclose]
      exact raises_leaveScope.bind fun _ => hemit
  · refine (raises_scanToken_of_ne fun k hk => ?_).mono fun _ he => he.1
    exact ⟨fun hb => hbracket ⟨k, hk, Or.inl hb⟩, fun hb => hbracket ⟨k, hk, Or.inr hb⟩⟩

theorem raises_scanTokens {tokens : List Token} :
    Raises (fun e => ∃ token ∈ tokens, e.line = some token.line) (scanTokens tokens) := by
  induction tokens with
  | nil => exact raises_pure
  | cons token tokens ih =>
    refine (raises_scanToken.mono fun e he => ⟨token, List.mem_cons_self, he⟩).bind fun _ => ?_
    exact ih.mono fun e ⟨token, htoken, he⟩ => ⟨token, List.mem_cons_of_mem _ htoken, he⟩

theorem line_checkPair {opening closing : Kind} {lexemes : Lexeme.Table}
    (h : checkPair opening closing lexemes = .error e) : e.line = none := by
  simp only [checkPair] at h
  split at h <;> cases h
  rfl

/-- What is missing at the end is missing on no line. -/
theorem line_checkStructure {lexemes : Lexeme.Table} (h : checkStructure lexemes = .error e) :
    e.line = none := by
  unfold checkStructure at h
  split at h
  · cases h
    rfl
  · rcases hparens : checkPair .openParen .closeParen lexemes with cause | _
    · rw [hparens] at h
      cases h
      exact line_checkPair hparens
    · rw [hparens] at h
      exact line_checkPair h

/-- Behind the library a run fails at one of its tokens, or on no line. -/
theorem exists_behindLibrary (tokens : List Token) : ∃ rest : Unit → Action Metrics,
    run tokens = registerLibrary (firstLine tokens) >>= rest ∧
      ∀ u, Raises (fun e => (∃ token ∈ tokens, e.line = some token.line) ∨ e.line = none)
        (rest u) := by
  refine ⟨_, rfl, fun _ => ?_⟩
  refine (raises_scanTokens.mono fun e he => Or.inl he).bind fun _ => ?_
  refine .get_bind (fun _ _ => rfl) fun s => ?_
  split
  · next hcheck => exact raises_raise (Or.inr (line_checkStructure hcheck))
  · exact raises_pure

theorem raises_run {tokens : List Token} : Raises (fun _ => True) (run tokens) := by
  obtain ⟨rest, hrun, hrest⟩ := exists_behindLibrary tokens
  rw [hrun]
  exact (raises_registerLibrary.mono fun _ _ => trivial).bind fun u =>
    (hrest u).mono fun _ _ => trivial

end Scan

variable {limits : Limits} {settings : ScanSettings} {maxDepth : Nat} {tokens : List Token}
  {p : Program} {e : Error} {metrics : Metrics}

theorem quiet_of_scan (h : (scan settings maxDepth tokens p).result = .ok metrics) :
    Scan.Quiet (scan settings maxDepth tokens p).notes := by
  unfold scan at h ⊢
  split at h
  · next metrics' t hrun =>
    obtain ⟨more, hmore, hnotes⟩ := Scan.raises_run.ok _ _ _ hrun
    rw [List.append_nil] at hnotes
    intro n hn
    exact hmore n (hnotes ▸ List.mem_reverse.mp hn)
  · cases h

/-- A scan that fails notes its error last, and no other one. -/
theorem failed_of_scan (h : (scan settings maxDepth tokens p).result = .error e) :
    ∃ before, Scan.Quiet before ∧
      (scan settings maxDepth tokens p).notes = before ++ [.failed e] := by
  unfold scan at h ⊢
  split at h
  · cases h
  · next e' t hrun =>
    cases h
    obtain ⟨-, more, hmore, hnotes⟩ := Scan.raises_run.error _ _ _ hrun
    rw [List.append_nil] at hnotes
    refine ⟨more.reverse, fun n hn => hmore n (List.mem_reverse.mp hn), ?_⟩
    show t.notes.reverse = _
    rw [hnotes, List.reverse_cons]

/-- The settings select among the notes of a scan, and nothing else depends on them. -/
theorem scan_asked (settings : ScanSettings) : scan settings maxDepth tokens p =
    { scan allNotes maxDepth tokens p with
      notes := (scan allNotes maxDepth tokens p).notes.filter (·.asked settings) } := by
  have hsame : Scan.Same settings
      (Scan.run tokens (.begin allNotes maxDepth p.symbols p.lexemes))
      (Scan.run tokens (.begin settings maxDepth p.symbols p.lexemes)) :=
    Scan.raises_run.same settings (.begin allNotes maxDepth p.symbols p.lexemes) rfl
  generalize hall : Scan.run tokens (.begin allNotes maxDepth p.symbols p.lexemes) = r at hsame
  generalize hrun : Scan.run tokens (.begin settings maxDepth p.symbols p.lexemes) = r' at hsame
  cases hsame with
  | ok _ => rw [scan_of_run hall, scan_of_run hrun, List.filter_reverse]; rfl
  | error => rw [scan_of_run_error hall, scan_of_run_error hrun, List.filter_reverse]; rfl

/-- The program and the outcome of a scan are the same under all settings. -/
theorem scan_settings (settings settings' : ScanSettings) :
    (scan settings maxDepth tokens p).program = (scan settings' maxDepth tokens p).program ∧
      (scan settings maxDepth tokens p).result = (scan settings' maxDepth tokens p).result := by
  rw [scan_asked settings, scan_asked settings']
  exact ⟨rfl, rfl⟩

/-- A scan fails on the line of one of its tokens or on no line, if the library finds room. -/
theorem line_of_scan {n : Nat} {symbols : Symbol.Table}
    (hr : p.symbols.registerLibrary = (.ok n, symbols))
    (h : (scan settings maxDepth tokens p).result = .error e) :
    (∃ token ∈ tokens, e.line = some token.line) ∨ e.line = none := by
  unfold scan at h
  split at h
  · cases h
  · next hrun =>
    cases h
    obtain ⟨rest, hsplit, hrest⟩ := Scan.exists_behindLibrary tokens
    rw [hsplit] at hrun
    rcases Scan.bind_eq_error.mp hrun with hlibrary | ⟨u, s, -, hfails⟩
    · simp only [Scan.registerLibrary, hr] at hlibrary
      cases hlibrary
    · exact ((hrest u).error _ _ _ hfails).1

end Ttm.Program
