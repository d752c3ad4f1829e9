import Ttm.Proofs.Core.Compile
import Ttm.Proofs.Core.Refusal

/-! Which programs with signs are compiled, and when they compute what their source says. -/
namespace Ttm.Core

open Lexeme (Kind)
open Postfix (Level Tree Role)

/-- A literal without leading zeros. -/
def Word.normal : Word → Word
  | .integer digits => .integer (Nat.repr (decimal digits))
  | w => w

/-- The reading in which everything means the words that compute it. -/
def free : Meaning (List Word) where
  integer n := [.integer (Nat.repr n)]
  text content := [.text content]
  var scope name := [.var scope name]
  call name values := values.flatten ++ [.call name values.length]
  apply k left right := left ++ right ++ [.mark k]

variable {V : Type} {m : Meaning V} {w : Word} {ws : List Word} {scope : String} {s : Statement}

theorem decimal_repr (n : Nat) : decimal (Nat.repr n) = n := by
  simp [decimal]

theorem perform_normal (st : List V) : perform m w.normal st = perform m w st := by
  cases w with
  | integer digits => simp [Word.normal, perform, decimal_repr]
  | _ => rfl

theorem run_normal (st : List V) : run m (ws.map Word.normal) st = run m ws st := by
  induction ws generalizing st with
  | nil => rfl
  | cons w ws ih =>
    rw [List.map_cons, run, run, perform_normal]
    exact congrArg _ (funext ih)

theorem perform_free {st st' : List (List Word)} (h : perform free w st = some st') :
    st'.reverse.flatten = st.reverse.flatten ++ [w.normal] := by
  cases w with
  | integer | text | var =>
    cases h
    simp [free, Word.normal]
  | call name arity =>
    simp only [perform] at h
    split at h
    · next harity =>
      cases h
      have hsplit : st.reverse.flatten =
          (st.drop arity).reverse.flatten ++ (st.take arity).reverse.flatten := by
        rw [← List.flatten_append, ← List.reverse_append, List.take_append_drop]
      simp [hsplit, free, Word.normal, Nat.min_eq_left harity]
    · cases h
  | mark k =>
    rcases st with _ | ⟨right, _ | ⟨left, st⟩⟩
    · cases h
    · cases h
    · simp only [perform] at h
      split at h
      · cases h
        simp [free, Word.normal]
      · cases h
  | _ => cases h

theorem run_free {st st' : List (List Word)} (h : run free ws st = some st') :
    st'.reverse.flatten = st.reverse.flatten ++ ws.map Word.normal := by
  induction ws generalizing st with
  | nil =>
    cases h
    simp
  | cons w ws ih =>
    obtain ⟨st'', hw, hws⟩ := Option.bind_eq_some_iff.mp h
    rw [ih hws, perform_free hw, List.append_assoc, List.map_cons, List.singleton_append]

/-- Words compute the value of an expression in every reading when they are those of its postfix
order. -/
theorem computes_iff : (∀ (V : Type) (m : Meaning V),
      run m ws [] = some [s.expression.value m scope]) ↔
    ws.map Word.normal = (s.code grammar scope).map Word.normal := by
  have hgrammar {V : Type} (m : Meaning V) : run m (s.code grammar scope) [] =
      some [s.expression.value m scope] := s.expression.run_postfixWords m scope []
  constructor
  · intro h
    have hws := run_free (h _ free)
    rw [run_free (hgrammar free)] at hws
    simpa using hws.symm
  · intro h V m
    rw [← run_normal, h, run_normal, hgrammar]

section

variable {limits : Limits} {settings : Settings} {source : List UInt8} {fs : List Function}

theorem wellStructured_of_served (h : Served fs) : ∃ trees, WellStructured trees fs := by
  obtain ⟨trees, htrees⟩ := exists_structures
  exact ⟨trees, fun f hf s hs => htrees f.name s (h f hf s hs)⟩

/-- The signs of a program that is compiled all get their brackets. -/
theorem served_of_ok {compiled : Compiled} (h : WellFormed fs)
    (hsource : Spells limits source fs) (hlimits : Respects limits fs)
    (hok : (Compile.source limits settings source).2 = .ok compiled) : Served fs := by
  obtain ⟨tokens, hread, htext⟩ := tokenize_of_spells hsource hlimits
  obtain ⟨n, symbols, t, hregister, ht, hstands⟩ := scanTokens_words h hlimits.tables htext
  rw [Compile.source_eq_stages, Compile.stages_of_tokenize hread] at hok
  cases hresult : (Program.scan settings.scan limits.maxScopeDepth tokens.tokens
      (.empty limits.maxSymbols limits.maxLexemes)).result with
  | error e =>
    rw [Compile.scan_of_error hresult] at hok
    cases hok
  | ok metrics =>
    obtain ⟨n', symbols', t', hregister', ht', -, hscan⟩ := Program.steps_of_scan hresult
    cases hregister.symm.trans hregister'
    cases ht.symm.trans ht'
    rw [Compile.scan_of_ok hscan] at hok
    by_contra hserved
    have hfails : Fails t.program.symbols none (written fs) :=
      fails_written hserved hlimits.statements
    obtain ⟨e, he⟩ := hfails _ hstands 0 { settings := settings.conversion } []
    have hconvert : (Postfix.convertAll t.program.symbols settings.conversion
        t.program.lexemes).result = .error e := by
      rw [List.append_nil] at he
      simp only [Postfix.convertAll, he]
      rfl
    rw [Compile.convert_of_error hconvert] at hok
    cases hok

/-- A program is compiled exactly when each sign has a literal or a variable behind it, before the
next sign and before the end of its statement. What is delivered is each expression in the postfix
order of its text with the bracket of each sign right behind that literal or variable. It computes
the value of the expression in every reading exactly when this is the postfix order of the grammar,
in which the bracket stands behind the operand of the sign. -/
theorem source_ok_iff_served (h : WellFormed fs) (hsource : Spells limits source fs)
    (hlimits : Respects limits fs) :
    ((∃ compiled, (Compile.source limits settings source).2 = .ok compiled) ↔ Served fs) ∧
      (Served fs → ∃ trees, WellStructured trees fs) ∧
      ∀ trees compiled, WellStructured trees fs →
        (Compile.source limits settings source).2 = .ok compiled →
        List.Forall₂ (Stands compiled.program.symbols) (converted trees fs)
          compiled.program.lexemes.toList ∧
        ∀ f ∈ fs, ∀ s ∈ f.body,
          ((∀ (V : Type) (m : Meaning V),
            run m (s.code trees f.name) [] = some [s.expression.value m f.name]) ↔
          (s.code trees f.name).map Word.normal = (s.code grammar f.name).map Word.normal) := by
  refine ⟨⟨?accepted, ?served⟩, wellStructured_of_served, ?delivered⟩
  case accepted =>
    rintro ⟨compiled, hok⟩
    exact served_of_ok h hsource hlimits hok
  case served =>
    intro hserved
    obtain ⟨trees, hs⟩ := wellStructured_of_served hserved
    obtain ⟨compiled, hok, -⟩ := source_of_structured h hs hsource hlimits
    exact ⟨compiled, hok⟩
  case delivered =>
    intro trees compiled hs hok
    obtain ⟨compiled', hok', hstands⟩ := source_of_structured h hs hsource hlimits
    cases hok.symm.trans hok'
    exact ⟨hstands, fun f _ s _ => computes_iff⟩

/-- Exact integers, with division towards zero. -/
def integers (text : String → Int) (var : String → String → Int)
    (call : String → List Int → Int) : Meaning Int where
  integer n := n
  text := text
  var := var
  call := call
  apply k x y :=
    match k with
    | .plus => x + y
    | .minus => x - y
    | .star => x * y
    | .slash => x.tdiv y
    | .percent => x.tmod y
    | _ => 0

theorem roleOf_plus : Postfix.roleOf .plus = some .additive := rfl

end

attribute [local instance] Limits.development

/-- The assignment of `-(1 + 2)`. -/
def signedSum : Statement :=
  .assign "x" (.ofProduct (.ofFactor (.negate (.group (.add (.ofProduct (.ofFactor (.integer "1")))
    ⟨.plus, roleOf_plus⟩ (.ofFactor (.integer "2")))))))

def signedProgram : List Function :=
  [{ type := .i32
     name := "main"
     parameters := []
     locals := [⟨.i32, "x"⟩]
     body := [signedSum, .ret (.ofProduct (.ofFactor (.integer "0")))] }]

def signedSource : List UInt8 :=
  "fn i32 main() \x7b let i32 x; x = -(1 + 2); ret 0; \x7d".toList.map fun c => .ofNat c.toNat

/-- `(0 - (1) + 2)`, as the bracket of the sign stands behind the 1. -/
def signedTree : Tree Word .list :=
  .ofSum (.ofProduct (.ofFactor (.group Expr.opening (.ofSum
    (.add (.add (.ofProduct (.ofFactor (.operand Expr.zero))) Expr.minus (.ofFactor
        (.group Expr.opening (.ofSum (.ofProduct (.ofFactor (.operand (.integer "1")))))
          Expr.closing)))
      (.mark .plus) (.ofFactor (.operand (.integer "2"))))) Expr.closing)))

def signedTrees : Structures := fun scope s =>
  match s with
  | .assign .. => signedTree
  | s => grammar scope s

theorem wellStructured_signedTrees : WellStructured signedTrees signedProgram := by
  intro f hf s hs
  obtain rfl := List.mem_singleton.mp hf
  simp only [List.mem_cons, List.not_mem_nil, or_false] at hs
  rcases hs with rfl | rfl
  · exact ⟨⟨rfl, ⟨⟨rfl, rfl, ⟨rfl, rfl, rfl⟩⟩, rfl, rfl⟩, rfl⟩, ⟨by decide, by decide⟩⟩
  · have hret : Structured grammar "main" (.ret (.ofProduct (.ofFactor (.integer "0")))) :=
      structured_grammar trivial
    exact ⟨hret.proper, hret.reads⟩

theorem wellFormed_signedProgram : WellFormed signedProgram :=
  wellFormed_singleton (by decide) rfl ⟨by decide, by decide, by decide, by decide, by decide⟩

theorem spells_signedSource : Spells .development signedSource signedProgram := by
  decide +kernel

theorem respects_signedProgram : Respects .development signedProgram := by
  decide +kernel

theorem source_ok_iff_served_signedSource :
    ∃ compiled, (Compile.source .development {} signedSource).2 = .ok compiled ∧
      List.Forall₂ (Stands compiled.program.symbols) (converted signedTrees signedProgram)
        compiled.program.lexemes.toList ∧
      ∀ text var call,
        run (integers text var call) (signedSum.code signedTrees "main") [] = some [1] ∧
        signedSum.expression.value (integers text var call) "main" = (-3 : Int) := by
  obtain ⟨hserved, -, hdelivered⟩ := @source_ok_iff_served .development {} _ _
    wellFormed_signedProgram spells_signedSource respects_signedProgram
  obtain ⟨compiled, hok⟩ := hserved.mpr (by decide)
  obtain ⟨hstands, -⟩ := hdelivered signedTrees compiled wellStructured_signedTrees hok
  exact ⟨compiled, hok, hstands, fun text var call => ⟨rfl, rfl⟩⟩

end Ttm.Core
