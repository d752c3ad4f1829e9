import Ttm.Proofs.Program.History
import Ttm.Proofs.Program.Raise
import Ttm.Proofs.Scope
import Ttm.Proofs.Symbol.Renaming

/-! Scanning commutes with a renaming of identifiers. -/
namespace Ttm

open Lexeme (Kind)
open Source (Token)
open Ttm.Symbol (Reserved)

namespace Renaming
variable {limits : Limits} (r : Renaming)

def token [Limits] (t : Token) : Token := { t with text := r.word t.text }

def scopes (s : Scopes) : Scopes :=
  { s with
    current := r.word s.current
    saved := s.saved.map r.word
    depth_eq := by rw [s.depth_eq, List.length_map] }

/-- Only names are renamed; an error stays where it is. -/
def error : Program.Error → Program.Error
  | .missingDeclarationKind name line => .missingDeclarationKind (r.word name) line
  | .missingDeclarationType name line => .missingDeclarationType (r.word name) line
  | .duplicateDeclaration name line => .duplicateDeclaration (r.word name) line
  | .undeclaredIdentifier name line => .undeclaredIdentifier (r.word name) line
  | .selfReference name line => .selfReference (r.word name) line
  | e => e

def note : Program.Note → Program.Note
  | .declared name scope kind type line => .declared (r.word name) (r.word scope) kind type line
  | .entered scope depth line => .entered (r.word scope) depth line
  | .left scope depth line => .left (r.word scope) depth line
  | .failed cause => .failed (r.error cause)

/-- A scan under way, renamed but for its symbols, which are given. -/
def state (s : Program.Scan.State) (symbols : Symbol.Table) : Program.Scan.State :=
  { s with
    program := ⟨symbols, s.program.lexemes⟩
    scopes := r.scopes s.scopes
    function := r.word s.function
    notes := s.notes.map r.note }

variable {r}

theorem enter_scopes (s : Scopes) (scope : String) :
    (r.scopes s).enter (r.word scope) = (s.enter scope).map r.scopes := by
  unfold Scopes.enter
  show (if s.maxDepth ≤ s.depth then _ else _) = _
  split <;> rfl

theorem exit_scopes (s : Scopes) : (r.scopes s).exit = s.exit.map r.scopes := by
  obtain ⟨current, saved, depth, maxDepth, deepest, hdepth⟩ := s
  cases saved <;> rfl

theorem name_error (e : Program.Error) : (r.error e).name = e.name := by
  cases e <;> rfl

theorem line_error (e : Program.Error) : (r.error e).line = e.line := by
  cases e <;> rfl

theorem error_of_line {e : Program.Error} (h : e.line = none) : r.error e = e := by
  cases e <;> first | rfl | cases h

theorem error_ofTableError {line : Nat} {e : Symbol.TableError} :
    r.error (Program.Scan.ofTableError line e) =
      Program.Scan.ofTableError line (r.tableError e) := by
  cases e <;> rfl

end Renaming

namespace Program.Scan

/-- The scan stays out of the scopes of library functions. -/
structure Apart (s : State) : Prop where
  function : ¬ Reserved s.function
  current : ¬ Reserved s.scopes.current
  saved : ∀ scope ∈ s.scopes.saved, ¬ Reserved scope

/-- What is known of two scans that go on alike. -/
structure Fits [Limits] (r : Renaming) (s : State) (u : Symbol.Table) : Prop where
  symbols : Symbol.Table.Renames r s.program.symbols u
  apart : Apart s

/-- Two scans end alike: with the same result, or with the same error but for names. -/
inductive Tracks [Limits] (r : Renaming) {α : Type} :
    EStateM.Result Error State α → EStateM.Result Error State α → Prop
  | ok {x : α} {t : State} {u : Symbol.Table} (h : Fits r t u) :
    Tracks r (.ok x t) (.ok x (r.state t u))
  | error {e : Error} {t : State} {u : Symbol.Table}
    (h : u.toList = t.program.symbols.toList.map r.symbol) :
    Tracks r (.error e t) (.error (r.error e) (r.state t u))

variable {limits : Limits} {α β : Type} {r : Renaming} {s t : State} {u : Symbol.Table}
  {a a' : Action α} {f f' : α → Action β} {s' : State} {line index : Nat} {name value : String}
  {kind : SymbolKind} {type : DataType} {called : Bool}

theorem Apart.keep (h : Apart s) (hfunction : t.function = s.function)
    (hscopes : t.scopes = s.scopes) : Apart t :=
  ⟨hfunction ▸ h.function, hscopes ▸ h.current, hscopes ▸ h.saved⟩

theorem Fits.keep (h : Fits r s u) (hsymbols : t.program.symbols = s.program.symbols)
    (hfunction : t.function = s.function) (hscopes : t.scopes = s.scopes) : Fits r t u :=
  ⟨hsymbols ▸ h.symbols, h.apart.keep hfunction hscopes⟩

theorem Tracks.bind (h : Tracks r (a s) (a' s'))
    (hf : ∀ x t u, Fits r t u → Tracks r (f x t) (f' x (r.state t u))) :
    Tracks r ((a >>= f) s) ((a' >>= f') s') := by
  show Tracks r (EStateM.bind a f s) (EStateM.bind a' f' s')
  unfold EStateM.bind
  generalize a s = x at h ⊢
  generalize a' s' = x' at h ⊢
  cases h with
  | ok h => exact hf _ _ _ h
  | error h => exact .error h

theorem state_tell (asked : Bool) (n : Note) :
    r.state (s.tell asked n) u = (r.state s u).tell asked (r.note n) := by
  cases asked <;> rfl

theorem tracks_tell {x : α} {asked : Bool} {n : Note} (h : Fits r s u) :
    Tracks r (.ok x (s.tell asked n)) (.ok x ((r.state s u).tell asked (r.note n))) := by
  rw [← state_tell]
  exact .ok (h.keep rfl rfl rfl)

theorem tracks_raise (h : u.toList = s.program.symbols.toList.map r.symbol) (e : Error) :
    Tracks r ((raise e : Action α) s) ((raise (r.error e) : Action α) (r.state s u)) :=
  .error (t := s.note (.failed e)) h

namespace Fits

theorem emit (h : Fits r s u) (k : Kind) (symbol : Option Nat) :
    Tracks r (emit k line symbol s) (emit k line symbol (r.state s u)) := by
  unfold Scan.emit
  show Tracks r _ (if s.program.lexemes.isFull then _ else _)
  split
  · exact tracks_raise h.symbols.toList _
  · exact .ok (t := s.addLexeme _) (h.keep rfl rfl rfl)

end Fits

/-- A symbol of the program is inserted as the renamed one is. -/
theorem tracks_insertSymbol {x : Symbol} (h : Symbol.Table.Renames r s.program.symbols u)
    (hx : x.Own) (hscope : ¬ Reserved x.scope)
    (hapart : s.program.symbols.refusal? x = none → Apart s) :
    Tracks r (insertSymbol x line s) (insertSymbol (r.symbol x) line (r.state s u)) := by
  have hrefusal : (r.state s u).program.symbols.refusal? (r.symbol x) =
      (s.program.symbols.refusal? x).map r.tableError := h.refusal? hx hscope
  have hsize : (r.state s u).program.symbols.size = s.program.symbols.size := h.size
  unfold insertSymbol
  rw [hrefusal, hsize]
  cases hr : s.program.symbols.refusal? x with
  | none => exact .ok ⟨h.add hx hscope hr, (hapart hr).keep rfl rfl⟩
  | some cause =>
    have hraise : Tracks r ((raise (ofTableError line cause) : Action Nat) s) _ :=
      tracks_raise h.toList (ofTableError line cause)
    rwa [Renaming.error_ofTableError] at hraise

/-- The function that is declared may have any name before its symbol is inserted. -/
theorem tracks_insertDeclaration (h : Symbol.Table.Renames r s.program.symbols u)
    (hkind : kind ≠ .literal) (hscope : ¬ Reserved s.scopes.current)
    (hapart : ∀ type, s.program.symbols.refusal? (s.declaration name kind type) = none →
      Apart s) :
    Tracks r (insertDeclaration name kind line s)
      (insertDeclaration (r.word name) kind line (r.state s u)) := by
  have hpending : (r.state s u).pendingType = s.pendingType := rfl
  simp only [insertDeclaration, get_bind, hpending]
  cases s.pendingType with
  | none => exact tracks_raise h.toList _
  | some type =>
    have hliteral : (s.declaration name kind type).isLiteral = false := by
      simp [State.declaration, Symbol.declared, Symbol.isLiteral, hkind]
    have hown : (s.declaration name kind type).Own :=
      ⟨rfl, fun hl => by rw [hliteral] at hl; cases hl⟩
    have hsymbol := Symbol.symbol_of_not_isLiteral (r := r) hown hliteral
    have hinsert : Tracks r (insertSymbol (s.declaration name kind type) line s) _ :=
      tracks_insertSymbol h hown hscope (hapart type)
    rw [hsymbol] at hinsert
    refine hinsert.bind fun index t v ht => ?_
    -- the note is renamed as the symbol is, or there is none
    show Tracks r (.ok index { (t.tell t.settings.logSymbols _).count _ with pendingType := none })
      (.ok index { ((r.state t v).tell t.settings.logSymbols
        (r.note (.declared name s.scopes.current kind type line))).count _ with
          pendingType := none })
    rw [← state_tell]
    exact .ok (t := { (t.tell t.settings.logSymbols _).count _ with pendingType := none })
      (ht.keep rfl rfl rfl)

/-- A function that is declared takes no name of the library, which has that name already. -/
theorem apart_of_function (h : Symbol.Table.Renames r s.program.symbols u) (ha : Apart s)
    (hr : s.program.symbols.refusal?
      ((s.beginFunction name).declaration name .function type) = none) :
    Apart (s.beginFunction name) :=
  ⟨h.not_reserved ((Symbol.Table.refusal?_eq_none.mp hr).2 rfl), Symbol.not_reserved_globalScope,
    ha.saved⟩

theorem state_prepare (kind : SymbolKind) (name : String) :
    (r.state s u).prepare kind (r.word name) = r.state (s.prepare kind name) u := by
  unfold State.prepare
  split
  · simp [State.beginFunction, Renaming.state, Renaming.scopes, Scopes.resetToGlobal]
  · rfl

namespace Fits

theorem declare (h : Fits r s u) : Tracks r (declare name line s)
    (declare (r.word name) line (r.state s u)) := by
  cases hd : s.declarationKind? with
  | none =>
    have hd' : (r.state s u).declarationKind? = none := hd
    simp only [Scan.declare, get_bind, hd, hd']
    exact tracks_raise h.symbols.toList _
  | some kind =>
    have hd' : (r.state s u).declarationKind? = some kind := hd
    rw [declare_of_some hd, declare_of_some hd', state_prepare]
    refine tracks_insertDeclaration (by rw [prepare_program]; exact h.symbols)
      (ne_literal_of_declarationKind? hd) ?_ fun type hr => ?_
    all_goals unfold State.prepare at *
    · split
      · exact Symbol.not_reserved_globalScope
      · exact h.apart.current
    · split at hr
      · next hkind =>
        rw [if_pos hkind]
        subst hkind
        exact apart_of_function h.symbols h.apart hr
      · next hkind =>
        rw [if_neg hkind]
        exact h.apart

theorem closeSign (h : Fits r s u) :
    Tracks r (closeSign line s) (closeSign line (r.state s u)) :=
  (h.emit .closeParen none).bind fun _ _ _ ht =>
    .ok (ht.keep rfl rfl rfl)

/-- A name becomes a lexeme, and an open sign may end behind it. -/
theorem refers (h : Fits r s u) (line : Nat) (k : Kind) (index : Nat) (c : Bool → Bool) :
    Tracks r
      ((do
        Scan.emit k line (some index)
        let s ← get
        if s.signOpen ∧ c (s.program.symbols.isFunction index) then Scan.closeSign line) s)
      ((do
        Scan.emit k line (some index)
        let s ← get
        if s.signOpen ∧ c (s.program.symbols.isFunction index) then Scan.closeSign line)
          (r.state s u)) := by
  refine (h.emit k index).bind fun _ t v ht => ?_
  have hfunction : (r.state t v).program.symbols.isFunction index =
      t.program.symbols.isFunction index := ht.symbols.isFunction
  have hopen : (r.state t v).signOpen = t.signOpen := rfl
  simp only [get_bind, hfunction, hopen]
  split
  · exact ht.closeSign
  · exact .ok ht

theorem lookup (h : Fits r s u) (called : Bool) (name : String) :
    (r.state s u).program.symbols.lookup ((r.state s u).lookupScope called) (r.word name) =
      s.program.symbols.lookup (s.lookupScope called) name := by
  cases called with
  | true =>
    have hlookup := h.symbols.lookup Symbol.not_reserved_globalScope name
    rwa [Renaming.word_globalScope] at hlookup
  | false => exact h.symbols.lookup h.apart.current name

theorem scanIdentifier (h : Fits r s u) : Tracks r (scanIdentifier name line called s)
    (scanIdentifier (r.word name) line called (r.state s u)) := by
  have hself : (r.word name = (r.state s u).scopes.current ∧ !called) ↔
      (name = s.scopes.current ∧ !called) := and_congr_left fun _ => Renaming.word_inj
  have hkind : (r.state s u).declarationKind? = s.declarationKind? := rfl
  simp only [Scan.scanIdentifier, get_bind, hself, h.lookup, hkind]
  split
  · exact tracks_raise h.symbols.toList _
  cases s.program.symbols.lookup (s.lookupScope called) name with
  | none => exact h.declare.bind fun symbol _ _ ht => ht.refers line .identifier symbol (!·)
  | some index =>
    cases s.declarationKind? with
    | some kind => exact tracks_raise h.symbols.toList _
    | none => exact h.refers line .identifier index (!·)

theorem scanMain (h : Fits r s u) :
    Tracks r (scanMain line s) (scanMain line (r.state s u)) := by
  have hname : r.word Kind.mainWord.text = Kind.mainWord.text :=
    Renaming.word_of_not_identifier nofun
  have hlookup : (r.state s u).program.symbols.lookup Symbol.globalScope Kind.mainWord.text =
      s.program.symbols.lookup Symbol.globalScope Kind.mainWord.text := by
    have hlookup := h.lookup true Kind.mainWord.text
    rwa [hname] at hlookup
  have hdeclares : (r.state s u).program.lexemes.declaresFunction =
      s.program.lexemes.declaresFunction := rfl
  have hpending : (r.state s u).pendingType = s.pendingType := rfl
  have hraise (e : Error) (he : r.error e = e) :
      Tracks r ((raise e : Action Unit) s) ((raise e : Action Unit) (r.state s u)) := by
    have herror : Tracks r ((raise e : Action Unit) s) _ := tracks_raise h.symbols.toList e
    rwa [he] at herror
  simp only [Scan.scanMain, get_bind, hlookup, hdeclares, hpending]
  cases s.program.symbols.lookup Symbol.globalScope Kind.mainWord.text with
  | some index =>
    cases s.program.lexemes.declaresFunction with
    | true => exact hraise (.duplicateMain line) rfl
    | false => exact h.emit .mainWord index
  | none =>
    cases s.program.lexemes.declaresFunction with
    | false =>
      exact hraise (.missingDeclarationKind Kind.mainWord.text line)
        (congrArg (Error.missingDeclarationKind · line) hname)
    | true =>
      by_cases htype : s.pendingType = some .i32
      · simp only [htype, ne_eq, not_true_eq_false, Bool.not_true, Bool.false_eq_true, if_false,
          modify_bind]
        have hstate : (r.state s u).beginFunction Kind.mainWord.text =
            r.state (s.beginFunction Kind.mainWord.text) u := by
          have hprepare := state_prepare (r := r) (s := s) (u := u) .function Kind.mainWord.text
          rwa [hname] at hprepare
        rw [hstate]
        have hdeclaration : Tracks r (insertDeclaration Kind.mainWord.text .function line
            (s.beginFunction Kind.mainWord.text)) _ :=
          tracks_insertDeclaration h.symbols (by decide) Symbol.not_reserved_globalScope
            fun type hr => apart_of_function h.symbols h.apart hr
        rw [hname] at hdeclaration
        exact hdeclaration.bind fun index _ _ ht => ht.emit .mainWord index
      · simp only [htype, ne_eq, not_false_eq_true, if_true, Bool.not_true, Bool.false_eq_true,
          if_false]
        exact hraise (.missingDeclarationType Kind.mainWord.text line)
          (congrArg (Error.missingDeclarationType · line) hname)

/-- Literals have no names. -/
theorem intern (h : Fits r s u) :
    Tracks r (intern type value line s) (intern type value line (r.state s u)) := by
  have hlookup : (r.state s u).program.symbols.lookupLiteral type value =
      s.program.symbols.lookupLiteral type value := h.symbols.lookupLiteral
  simp only [Scan.intern, get_bind, hlookup]
  cases s.program.symbols.lookupLiteral type value with
  | some index => exact .ok (t := s.reuseLiteral) (h.keep rfl rfl rfl)
  | none =>
    have hown : (s.newLiteral type value).Own := ⟨rfl, fun _ => rfl⟩
    have hinsert : Tracks r (insertSymbol (s.newLiteral type value) line s) _ :=
      tracks_insertSymbol h.symbols hown Symbol.not_reserved_globalScope fun _ => h.apart
    exact hinsert.bind fun index t v ht =>
      .ok (ht.keep rfl rfl rfl)

theorem scanLiteral (h : Fits r s u) :
    Tracks r (scanLiteral type value line s) (scanLiteral type value line (r.state s u)) := by
  refine h.intern.bind fun index t v ht => ?_
  have hrefers := ht.refers line .literal index fun _ => true
  simpa only [and_true] using hrefers

theorem scanInteger (h : Fits r s u) (text : String) :
    Tracks r (scanInteger text line s) (scanInteger text line (r.state s u)) := by
  unfold Scan.scanInteger
  cases Lexeme.decimal? maxInteger text.toList with
  | none => exact tracks_raise h.symbols.toList _
  | some value => exact h.scanLiteral

theorem scanString (h : Fits r s u) (text : String) :
    Tracks r (scanString text line s) (scanString text line (r.state s u)) := by
  unfold Scan.scanString
  cases text.toList.tail.dropLast with
  | nil => exact tracks_raise h.symbols.toList _
  | cons => exact h.scanLiteral

theorem openSign (h : Fits r s u) :
    Tracks r (openSign line s) (openSign line (r.state s u)) := by
  refine (h.emit .openParen none).bind fun _ t v ht => ht.intern.bind fun index t v ht => ?_
  refine (ht.emit .literal index).bind fun _ t v ht => (ht.emit .minus none).bind ?_
  exact fun _ t v ht => .ok (ht.keep rfl rfl rfl)

theorem enterScope (h : Fits r s u) :
    Tracks r (enterScope line s) (enterScope line (r.state s u)) := by
  have hscopes : (r.state s u).scopes.enter (r.state s u).function =
      (s.scopes.enter s.function).map r.scopes := Renaming.enter_scopes s.scopes s.function
  unfold Scan.enterScope
  rw [hscopes]
  cases hs : s.scopes.enter s.function with
  | ok scopes =>
    have hentered := Scopes.entered hs
    refine tracks_tell (s := { s with scopes }) ⟨h.symbols, h.apart.function, ?_, ?_⟩
    · show ¬ Reserved scopes.current
      rw [hentered.current]
      exact h.apart.function
    · show ∀ scope ∈ scopes.saved, ¬ Reserved scope
      rw [hentered.saved]
      exact List.forall_mem_cons.mpr ⟨h.apart.current, h.apart.saved⟩
  | error fault => cases fault <;> exact tracks_raise h.symbols.toList _

theorem leaveScope (h : Fits r s u) :
    Tracks r (leaveScope line s) (leaveScope line (r.state s u)) := by
  have hscopes : (r.state s u).scopes.exit = s.scopes.exit.map r.scopes :=
    Renaming.exit_scopes s.scopes
  unfold Scan.leaveScope
  rw [hscopes]
  cases hs : s.scopes.exit with
  | ok scopes =>
    have hsaved := h.apart.saved
    rw [(Scopes.left hs).saved] at hsaved
    obtain ⟨hcurrent, hsaved⟩ := List.forall_mem_cons.mp hsaved
    exact tracks_tell (s := { s with scopes }) ⟨h.symbols, h.apart.function, hcurrent, hsaved⟩
  | error fault => exact tracks_raise h.symbols.toList _

theorem scanDatatype (h : Fits r s u) :
    Tracks r (scanDatatype type line s) (scanDatatype type line (r.state s u)) :=
  Fits.emit (s := { s with pendingType := some type })
    (h.keep rfl rfl rfl) .datatype none

theorem scanMinus (h : Fits r s u) :
    Tracks r (scanMinus line s) (scanMinus line (r.state s u)) := by
  have hnext : (r.state s u).expectsOperand = s.expectsOperand := rfl
  simp only [Scan.scanMinus, get_bind, hnext]
  split
  · exact h.openSign
  · exact h.emit .minus none

/-- A renamed token does what the token does. -/
theorem scanToken (h : Fits r s u) (token : Token) (called : Bool) :
    Tracks r (scanToken token called s) (scanToken (r.token token) called (r.state s u)) := by
  have htext (hk : Kind.ofText? token.text ≠ some .identifier) : r.token token = token := by
    rw [Renaming.token, Renaming.word_of_not_identifier hk]
  have hkind : Kind.ofText? (r.token token).text = Kind.ofText? token.text :=
    Renaming.ofText?_word
  cases hk : Kind.ofText? token.text with
  -- only an identifier has a new text, all other tokens stay as they are
  | none =>
    rw [htext (by simp [hk])]
    unfold Scan.scanToken
    rw [hk]
    exact tracks_raise h.symbols.toList _
  | some k =>
    by_cases hidentifier : k = .identifier
    · subst hidentifier
      unfold Scan.scanToken
      rw [hkind, hk]
      exact h.scanIdentifier
    rw [htext (by simpa [hk] using hidentifier)]
    by_cases hp : isPlain k
    · rw [scanToken_of_plain hk hp]
      exact h.emit k none
    by_cases hopen : k = .openBrace ∨ k = .openParen
    · rw [scanToken_of_opening hk hopen]
      exact h.enterScope.bind fun _ _ _ ht => ht.emit k none
    by_cases hclose : k = .closeBrace ∨ k = .closeParen
    · rw [scanToken_of_closing hk hclose]
      exact h.leaveScope.bind fun _ _ _ ht => ht.emit k none
    unfold Scan.scanToken
    rw [hk]
    cases k with
    | i32 | str => exact h.scanDatatype
    | mainWord => exact h.scanMain
    | integer => exact h.scanInteger token.text
    | string => exact h.scanString token.text
    | minus => exact h.scanMinus
    | identifier => exact absurd rfl hidentifier
    | openBrace | openParen => simp at hopen
    | closeBrace | closeParen => simp at hclose
    | _ => exact absurd rfl hp

theorem opensCall_map (tokens : List Token) :
    opensCall (tokens.map r.token) = opensCall tokens := by
  cases tokens with
  | nil => rfl
  | cons token rest =>
    have hparen : r.word "(" = "(" := Renaming.word_of_not_identifier nofun
    rw [Bool.eq_iff_iff]
    simp only [opensCall, List.map_cons, List.head?_cons, Option.any_some, beq_iff_eq,
      Renaming.token]
    rw [eq_comm, Renaming.eq_word_iff hparen, eq_comm]

/-- Tokens are scanned alike, since every accepted one leaves two scans that go on alike. -/
theorem scanTokens (h : Fits r s u) (tokens : List Token) :
    Tracks r (scanTokens tokens s) (scanTokens (tokens.map r.token) (r.state s u)) := by
  induction tokens generalizing s u with
  | nil => exact .ok h
  | cons token rest ih =>
    have htoken := h.scanToken token (opensCall rest)
    show Tracks r ((Scan.scanToken token (opensCall rest) >>= fun _ => Scan.scanTokens rest) s)
      ((Scan.scanToken (r.token token) (opensCall (rest.map r.token)) >>= fun _ =>
        Scan.scanTokens (rest.map r.token)) (r.state s u))
    rw [opensCall_map]
    exact htoken.bind fun _ _ _ ht => ih ht

end Fits

variable {settings : ScanSettings} {maxDepth maxSymbols : Nat} {tokens : List Token}
  {symbols : Symbol.Table} {lexemes : Lexeme.Table}

theorem state_begin :
    r.state (.begin settings maxDepth symbols lexemes) u = .begin settings maxDepth u lexemes := by
  simp [State.begin, Renaming.state, Renaming.scopes, Scopes.global]

/-- Both scans begin with the same library. -/
theorem tracks_registerLibrary :
    Tracks r (registerLibrary line (.begin settings maxDepth (.empty maxSymbols) lexemes))
      (registerLibrary line (.begin settings maxDepth (.empty maxSymbols) lexemes)) := by
  have hbegin : (State.begin settings maxDepth (.empty maxSymbols) lexemes).program.symbols =
      .empty maxSymbols := rfl
  unfold registerLibrary
  rw [hbegin]
  cases h : (Symbol.Table.empty maxSymbols).registerLibrary with
  | mk result symbols =>
  cases result with
  | ok n =>
    have hfits : Fits r (.begin settings maxDepth symbols lexemes) symbols :=
      ⟨Symbol.Table.renames_library h, Symbol.not_reserved_globalScope,
        Symbol.not_reserved_globalScope, fun _ hx => by cases hx⟩
    have hok := Tracks.ok (x := ()) hfits
    rwa [state_begin] at hok
  | error e =>
    obtain ⟨max, rfl⟩ := Symbol.Table.registerLibrary_empty_eq_error h
    have hlist := Symbol.Table.toList_of_registerLibrary_error h
    have hraise : Tracks r ((raise (.capacityExceeded .symbol max line) : Action Unit)
        (.begin settings maxDepth symbols lexemes)) _ :=
      tracks_raise (Symbol.Table.map_symbol_of_library hlist).symm _
    rwa [state_begin] at hraise

theorem firstLine_map : firstLine (tokens.map r.token) = firstLine tokens := by
  cases tokens <;> rfl

/-- A scan of renamed tokens ends as the scan of the tokens does. -/
theorem tracks_run (r : Renaming) (settings : ScanSettings) (maxDepth maxSymbols : Nat)
    (lexemes : Lexeme.Table) (tokens : List Token) :
    Tracks r (run tokens (.begin settings maxDepth (.empty maxSymbols) lexemes))
      (run (tokens.map r.token) (.begin settings maxDepth (.empty maxSymbols) lexemes)) := by
  unfold run
  rw [firstLine_map]
  refine tracks_registerLibrary.bind fun _ t v ht => (ht.scanTokens tokens).bind fun _ t v ht => ?_
  have hlexemes : (r.state t v).program.lexemes = t.program.lexemes := rfl
  simp only [get_bind, hlexemes]
  cases hcheck : checkStructure t.program.lexemes with
  | error e =>
    have hraise : Tracks r ((raise e : Action Metrics) t) _ := tracks_raise ht.symbols.toList e
    rwa [Renaming.error_of_line (line_checkStructure hcheck)] at hraise
  | ok _ =>
    have hsummary : (r.state t v).summary (tokens.map r.token) = t.summary tokens := by
      unfold State.summary
      rw [List.length_map]
      show { t.metrics with
        tokens := tokens.length
        lexemes := t.program.lexemes.size
        symbols := v.size
        maxScopeDepth := t.scopes.deepest } = _
      rw [ht.symbols.size]
    show Tracks r (.ok (t.summary tokens) t)
      (.ok ((r.state t v).summary (tokens.map r.token)) (r.state t v))
    rw [hsummary]
    exact .ok ht

end Program.Scan

namespace Program

/-- One scan ends as the other one does, but for the names of what the program declares. -/
structure Renamed [Limits] (r : Renaming) (s s' : Scanned) : Prop where
  lexemes : s'.program.lexemes = s.program.lexemes
  symbols : s'.program.symbols.toList = s.program.symbols.toList.map r.symbol
  notes : s'.notes = s.notes.map r.note
  result : s'.result = s.result.mapError r.error

section

variable {limits : Limits}

/-- Scanning tokens into empty tables and renaming identifiers commute: the lexemes and all counts
stay the same, declared symbols and their scopes are renamed, and an error stays the same error on
the same line. -/
theorem scan_rename (r : Renaming) (settings : ScanSettings)
    (maxDepth maxSymbols maxLexemes : Nat) (tokens : List Token) :
    Renamed r (scan settings maxDepth tokens (empty maxSymbols maxLexemes))
      (scan settings maxDepth (tokens.map r.token) (empty maxSymbols maxLexemes)) ∧
    ∀ e, (r.error e).name = e.name ∧ (r.error e).line = e.line := by
  refine ⟨?_, fun e => ⟨Renaming.name_error e, Renaming.line_error e⟩⟩
  have htracks := Scan.tracks_run r settings maxDepth maxSymbols (.empty maxLexemes) tokens
  generalize hrun : Scan.run tokens _ = x at htracks
  generalize hrun' : Scan.run (tokens.map r.token) _ = x' at htracks
  cases htracks with
  | ok h =>
    rw [scan_of_run (p := empty maxSymbols maxLexemes) hrun,
      scan_of_run (p := empty maxSymbols maxLexemes) hrun']
    exact ⟨rfl, h.symbols.toList, List.map_reverse.symm, rfl⟩
  | error h =>
    rw [scan_of_run_error (p := empty maxSymbols maxLexemes) hrun,
      scan_of_run_error (p := empty maxSymbols maxLexemes) hrun']
    exact ⟨rfl, h, List.map_reverse.symm, rfl⟩

end

attribute [local instance] Limits.development

/-- A variable takes the name of a library parameter, and the other way round. -/
def parameterName : Renaming :=
  .swap "x" "arg0" (by decide) (by decide) (by decide) (by decide)

/-- A variable may have the name that the parameters of library functions have. -/
theorem scan_rename_parameterName :
    Renamed parameterName
      (scan {} 64 (oneLine 1 ["let", "i32", "x", ";", "x", "=", "1"]) (empty 65536 100))
      (scan {} 64 (oneLine 1 ["let", "i32", "arg0", ";", "arg0", "=", "1"]) (empty 65536 100)) := by
  have htokens : (oneLine 1 ["let", "i32", "x", ";", "x", "=", "1"]).map parameterName.token =
      oneLine 1 ["let", "i32", "arg0", ";", "arg0", "=", "1"] := by decide
  rw [← htokens]
  exact (scan_rename parameterName {} 64 65536 100 _).1

end Program
end Ttm
