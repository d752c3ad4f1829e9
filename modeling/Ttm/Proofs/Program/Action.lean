import Ttm.Program.Scan

/-! How the actions of a scan end, and the state they leave. -/
namespace Ttm.Program

def addSymbol (p : Program) (x : Symbol) : Program := { p with symbols := p.symbols.add x }

def addLexeme (p : Program) (l : Lexeme) : Program := { p with lexemes := p.lexemes.add l }

namespace Scan

open Lexeme (Kind)

namespace State

/-- The lexeme table takes `n` entries more. -/
def HasRoom (s : State) (n : Nat) : Prop :=
  s.program.lexemes.size + n ≤ s.program.lexemes.capacity

/-- A declared function begins and goes back to the global scope. -/
def prepare (s : State) (kind : SymbolKind) (name : String) : State :=
  if kind = .function then s.beginFunction name else s

/-- The symbol that a declaration here adds. -/
def declaration (s : State) (name : String) (kind : SymbolKind) (type : DataType) : Symbol :=
  .declared name s.scopes.current s.program.lexemes.size type kind

def addDeclaration (s : State) (name : String) (kind : SymbolKind) (type : DataType)
    (line : Nat) : State :=
  { ((s.addSymbol (s.declaration name kind type)).tell s.settings.logSymbols
      (.declared name s.scopes.current kind type line)).count
      (fun m => { m with declarations := m.declarations + 1 }) with pendingType := none }

/-- The symbol that a literal here adds. -/
def newLiteral (s : State) (type : DataType) (value : String) : Symbol :=
  .literal s.program.lexemes.size type value

def addLiteral (s : State) (type : DataType) (value : String) : State :=
  (s.addSymbol (s.newLiteral type value)).count
    fun m => { m with literalsInterned := m.literalsInterned + 1 }

def reuseLiteral (s : State) : State :=
  s.count fun m => { m with literalReuses := m.literalReuses + 1 }

/-- Whether the operand just read ends an open sign. -/
def closes (s : State) (kind : Kind) (index : Nat) : Bool :=
  match kind with
  | .identifier => s.signOpen && !s.program.symbols.isFunction index
  | .literal => s.signOpen
  | _ => false

end State

variable {α β : Type} {s t : State} {a : Action α} {f : α → Action β} {x y : α} {b : β} {e : Error}
  {line index : Nat} {name value : String} {kind : SymbolKind} {type : DataType}

theorem bind_eq_ok : (a >>= f) s = .ok b t ↔ ∃ x u, a s = .ok x u ∧ f x u = .ok b t := by
  show EStateM.bind a f s = _ ↔ _
  unfold EStateM.bind
  cases a s <;> simp [and_assoc]

theorem bind_eq_error :
    (a >>= f) s = .error e t ↔ a s = .error e t ∨ ∃ x u, a s = .ok x u ∧ f x u = .error e t := by
  show EStateM.bind a f s = _ ↔ _
  unfold EStateM.bind
  cases a s <;> simp [and_assoc]

theorem pure_eq_ok : (pure x : Action α) s = .ok y t ↔ y = x ∧ t = s := by
  show EStateM.Result.ok x s = _ ↔ _
  rw [EStateM.Result.ok.injEq, eq_comm, @eq_comm _ s]

theorem pure_eq_error : (pure x : Action α) s = .error e t ↔ False := by
  show EStateM.Result.ok x s = _ ↔ _
  simp

theorem raise_eq_ok {e : Error} : (raise e : Action α) s = .ok x t ↔ False := by
  show EStateM.Result.error e _ = _ ↔ _
  simp

theorem raise_eq_error {e' : Error} :
    (raise e' : Action α) s = .error e t ↔ e = e' ∧ t = s.note (.failed e') := by
  show EStateM.Result.error e' (s.note (.failed e')) = _ ↔ _
  rw [EStateM.Result.error.injEq, eq_comm, @eq_comm _ (s.note _)]

theorem get_bind {f : State → Action β} : (get >>= f) s = f s s := rfl

theorem modify_bind {g : State → State} {f : PUnit → Action β} :
    ((modify g : Action PUnit) >>= f) s = f ⟨⟩ (g s) := rfl

theorem raise_bind : ((raise e : Action α) >>= f) s = .error e (s.note (.failed e)) := rfl

theorem modify_eq_ok {g : State → State} {u : PUnit} :
    (modify g : Action PUnit) s = .ok u t ↔ t = g s := by
  show EStateM.Result.ok _ (g s) = _ ↔ _
  rw [EStateM.Result.ok.injEq, @eq_comm _ (g s)]
  simp

theorem modify_eq_error {g : State → State} :
    (modify g : Action PUnit) s = .error e t ↔ False := by
  show EStateM.Result.ok _ (g s) = _ ↔ _
  simp

theorem ite_eq_ok {c : Prop} [Decidable c] {a' : Action α} :
    (if c then a else a') s = .ok x t ↔ c ∧ a s = .ok x t ∨ ¬ c ∧ a' s = .ok x t := by
  by_cases hc : c <;> simp [hc]

theorem ite_eq_error {c : Prop} [Decidable c] {a' : Action α} :
    (if c then a else a') s = .error e t ↔ c ∧ a s = .error e t ∨ ¬ c ∧ a' s = .error e t := by
  by_cases hc : c <;> simp [hc]

theorem isFull_eq_false : s.program.lexemes.isFull = false ↔ s.HasRoom 1 := by
  rw [Lexeme.Table.isFull, decide_eq_false_iff_not, Nat.not_le]
  rfl

theorem emit_eq_ok {kind : Kind} {symbol : Option Nat} {u : Unit} :
    emit kind line symbol s = .ok u t ↔ s.HasRoom 1 ∧ t = s.addLexeme ⟨kind, line, symbol⟩ := by
  unfold emit
  rw [← isFull_eq_false]
  cases s.program.lexemes.isFull with
  | true => simp [raise_eq_ok]
  | false => simp [eq_comm]

theorem emit_eq_error {kind : Kind} {symbol : Option Nat} :
    emit kind line symbol s = .error e t ↔
      ¬ s.HasRoom 1 ∧ e = .capacityExceeded .lexeme s.program.lexemes.capacity line ∧
        t = s.note (.failed (.capacityExceeded .lexeme s.program.lexemes.capacity line)) := by
  unfold emit
  rw [← isFull_eq_false]
  cases s.program.lexemes.isFull <;> simp [raise_eq_error]

theorem insertSymbol_eq_ok {x : Symbol} : insertSymbol x line s = .ok index t ↔
    s.program.symbols.refusal? x = none ∧ index = s.program.symbols.size ∧ t = s.addSymbol x := by
  unfold insertSymbol
  cases s.program.symbols.refusal? x with
  | none => simp [eq_comm]
  | some cause => simp [raise_eq_ok]

theorem insertSymbol_eq_error {x : Symbol} : insertSymbol x line s = .error e t ↔
    ∃ cause, s.program.symbols.refusal? x = some cause ∧ e = ofTableError line cause ∧
      t = s.note (.failed e) := by
  unfold insertSymbol
  cases s.program.symbols.refusal? x with
  | none => simp
  | some cause =>
    simp only [raise_eq_error, Option.some.injEq, exists_eq_left']
    exact and_congr_right fun he => by rw [he]

theorem insertDeclaration_eq_ok : insertDeclaration name kind line s = .ok index t ↔
    ∃ type, s.pendingType = some type ∧
      s.program.symbols.refusal? (s.declaration name kind type) = none ∧
      index = s.program.symbols.size ∧ t = s.addDeclaration name kind type line := by
  simp only [insertDeclaration, get_bind]
  cases s.pendingType with
  | none => simp [raise_eq_ok]
  | some type =>
    simp only [bind_eq_ok, insertSymbol_eq_ok, modify_bind, pure_eq_ok]
    constructor
    · rintro ⟨_, _, ⟨hr, rfl, rfl⟩, rfl, rfl⟩
      exact ⟨type, rfl, hr, rfl, rfl⟩
    · rintro ⟨_, ⟨⟩, hr, rfl, rfl⟩
      exact ⟨_, _, ⟨hr, rfl, rfl⟩, rfl, rfl⟩

theorem insertDeclaration_eq_error (h : insertDeclaration name kind line s = .error e t) :
    t = s.note (.failed e) := by
  simp only [insertDeclaration, get_bind] at h
  cases hp : s.pendingType with
  | none =>
    rw [hp] at h
    obtain ⟨rfl, rfl⟩ := raise_eq_error.mp h
    rfl
  | some type =>
    simp only [hp, bind_eq_error, insertSymbol_eq_error, modify_bind, pure_eq_error] at h
    rcases h with ⟨cause, -, -, rfl⟩ | ⟨_, _, -, h⟩
    · rfl
    · exact h.elim

@[simp] theorem note_program {n : Note} : (s.note n).program = s.program := rfl

@[simp] theorem prepare_program : (s.prepare kind name).program = s.program := by
  unfold State.prepare
  split <;> rfl

@[simp] theorem prepare_pendingType : (s.prepare kind name).pendingType = s.pendingType := by
  unfold State.prepare
  split <;> rfl

theorem addDeclaration_program : (s.addDeclaration name kind type line).program =
    s.program.addSymbol (s.declaration name kind type) := rfl

theorem addDeclaration_prepare :
    ((s.prepare kind name).addDeclaration name kind type line).program =
      s.program.addSymbol ((s.prepare kind name).declaration name kind type) := by
  rw [addDeclaration_program, prepare_program]

theorem position_declaration : ((s.prepare kind name).declaration name kind type).position =
    some s.program.lexemes.size := by
  rw [State.declaration, prepare_program]
  rfl

theorem declare_of_some (hd : s.declarationKind? = some kind) :
    declare name line s = insertDeclaration name kind line (s.prepare kind name) := by
  simp only [declare, get_bind, hd]
  unfold State.prepare
  split <;> rfl

theorem declare_eq_ok : declare name line s = .ok index t ↔
    ∃ kind type, s.declarationKind? = some kind ∧ s.pendingType = some type ∧
      s.program.symbols.refusal? ((s.prepare kind name).declaration name kind type) = none ∧
      index = s.program.symbols.size ∧
      t = (s.prepare kind name).addDeclaration name kind type line := by
  cases hd : s.declarationKind? with
  | none => simp [declare, get_bind, hd, raise_eq_ok]
  | some kind =>
    simp only [declare_of_some hd, insertDeclaration_eq_ok, prepare_program, prepare_pendingType]
    constructor
    · rintro ⟨type, h⟩
      exact ⟨kind, type, rfl, h⟩
    · rintro ⟨_, type, ⟨⟩, h⟩
      exact ⟨type, h⟩

theorem declare_eq_error (h : declare name line s = .error e t) : t.program = s.program := by
  cases hd : s.declarationKind? with
  | none =>
    simp only [declare, get_bind, hd, raise_eq_error] at h
    rw [h.2, note_program]
  | some kind =>
    rw [declare_of_some hd] at h
    rw [insertDeclaration_eq_error h, note_program, prepare_program]

theorem intern_eq_ok : intern type value line s = .ok index t ↔
    s.program.symbols.lookupLiteral type value = some index ∧ t = s.reuseLiteral ∨
    s.program.symbols.lookupLiteral type value = none ∧
      s.program.symbols.refusal? (s.newLiteral type value) = none ∧
      index = s.program.symbols.size ∧ t = s.addLiteral type value := by
  simp only [intern, get_bind]
  cases s.program.symbols.lookupLiteral type value with
  | some found =>
    simp only [modify_bind, pure_eq_ok, Option.some.injEq, reduceCtorEq, false_and, or_false]
    rw [eq_comm]
    rfl
  | none =>
    simp only [bind_eq_ok, insertSymbol_eq_ok, modify_bind, pure_eq_ok, reduceCtorEq, false_and,
      false_or, true_and]
    constructor
    · rintro ⟨_, _, ⟨hr, rfl, rfl⟩, rfl, rfl⟩
      exact ⟨hr, rfl, rfl⟩
    · rintro ⟨hr, rfl, rfl⟩
      exact ⟨_, _, ⟨hr, rfl, rfl⟩, rfl, rfl⟩

theorem intern_eq_error (h : intern type value line s = .error e t) :
    t = s.note (.failed e) := by
  simp only [intern, get_bind] at h
  cases hl : s.program.symbols.lookupLiteral type value with
  | some found => simp only [hl, modify_bind, pure_eq_error] at h
  | none =>
    simp only [hl, bind_eq_error, insertSymbol_eq_error, modify_bind, pure_eq_error] at h
    rcases h with ⟨cause, -, -, rfl⟩ | ⟨_, _, -, h⟩
    · rfl
    · exact h.elim

theorem closeSign_eq_ok {u : Unit} : closeSign line s = .ok u t ↔
    s.HasRoom 1 ∧ t = { s.addLexeme ⟨.closeParen, line, none⟩ with signOpen := false } := by
  simp only [closeSign, bind_eq_ok, emit_eq_ok, modify_eq_ok]
  constructor
  · rintro ⟨_, _, ⟨hroom, rfl⟩, rfl⟩
    exact ⟨hroom, rfl⟩
  · rintro ⟨hroom, rfl⟩
    exact ⟨(), _, ⟨hroom, rfl⟩, rfl⟩

theorem closeSign_eq_error (h : closeSign line s = .error e t) : t = s.note (.failed e) := by
  simp only [closeSign, bind_eq_error, emit_eq_error, modify_eq_error] at h
  rcases h with ⟨-, rfl, rfl⟩ | ⟨_, _, -, h⟩
  · rfl
  · exact h.elim

end Scan
end Ttm.Program
