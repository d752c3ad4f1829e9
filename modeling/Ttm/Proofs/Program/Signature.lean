import Ttm.Proofs.Program.Layout

/-! The parameters of a function: those in its list, and those that its body declares. -/
namespace Ttm

open Lexeme (Kind)
open Source (Token)

namespace Symbol

def isParameterOf (scope : String) (x : Symbol) : Bool := x.kind == .parameter && x.scope == scope

/-- Types and names of the parameters in a scope, in the order of their insertion. -/
def Table.parameters (t : Table) (scope : String) : List (DataType × String) :=
  (t.toList.filter (isParameterOf scope)).map fun x => (x.type, x.name)

theorem Table.parameters_add {t : Table} {x : Symbol} {scope : String} :
    (t.add x).parameters scope =
      t.parameters scope ++ if isParameterOf scope x then [(x.type, x.name)] else [] := by
  rw [parameters, toList_add, List.filter_append, List.map_append]
  cases h : isParameterOf scope x <;> simp [parameters, h]

end Symbol

namespace Program

/-- An identifier behind a datatype names a parameter, unless `fn` or `let` stands before both. -/
def parameter? [Limits] (done : List Token) (token : Token) : Option (DataType × String) :=
  if token.kind? = some .identifier ∧ recent? done 1 ≠ some .fnWord ∧
    recent? done 1 ≠ some .letWord then typed? done token else none

/-- Types and names of the parameters that are written in a token list. -/
def parameters [Limits] (tokens : List Token) : List (DataType × String) :=
  gather parameter? [] tokens

/-- Those of them that are written inside of brackets. -/
def innerParameters [Limits] (tokens : List Token) : List (DataType × String) :=
  gather (fun done token => if opened done = closed done then none else parameter? done token) []
    tokens

/-- The definition of a function among the tokens: its type and name, the list between the bracket
behind the name and the matching one, and what follows. -/
structure Definition [Limits] (tokens : List Token) (f : Symbol)
    (list rest : List Token) : Prop where
  tokens : ∃ before word type name opening closing,
    tokens = before ++ word :: type :: name :: opening :: (list ++ closing :: rest) ∧
    word.kind? = some .fnWord ∧ type.type? = some f.type ∧ name.text = f.name ∧
    opening.kind? = some .openParen ∧ closing.closes
  matched : Matched list

/-- The tokens up to the next function. -/
def beforeFunction [Limits] (tokens : List Token) : List Token :=
  tokens.takeWhile (·.kind? != some .fnWord)

/-- The parameters of every function that is not in the library: first those in the list behind its
name, then those that are written in the brackets behind it up to the next function. -/
def SignaturesRecorded [Limits] (p : Program) (tokens : List Token) : Prop :=
  ∀ i f, 5 ≤ i → p.symbols.get? i = some f → f.kind = .function →
    ∃ list rest, Definition tokens f list rest ∧
      p.symbols.parameters f.name = parameters list ++ innerParameters (beforeFunction rest)

/-- Every function is defined outside of brackets, and one opens behind its name. -/
def SignaturesOutside [Limits] (tokens : List Token) : Prop :=
  FunctionsOutside tokens ∧ ∀ q, q < tokens.length →
    tokens[q]?.bind Token.kind? = some .fnWord →
      tokens[q + 3]?.bind Token.kind? = some .openParen

instance [Limits] (tokens : List Token) : Decidable (SignaturesOutside tokens) :=
  inferInstanceAs (Decidable (_ ∧ ∀ q, q < tokens.length → _))

/-- The parameter that a token declares in a scope. -/
def parameterIn? [Limits] (scope : String) (done : List Token) (token : Token) :
    Option (DataType × String) :=
  if enclosing done = scope then parameter? done token else none

section

variable {settings : ScanSettings} {limits : Limits} {done rest tokens list before : List Token}
  {token : Token} {called : Bool} {s t : Scan.State} {type : DataType} {k : Kind}
  {scope name : String} {maxDepth : Nat} {found : DataType × String}

theorem parameter?_eq_some (h : parameter? done token = some found) :
    token.kind? = some .identifier ∧ recent? done 1 ≠ some .fnWord ∧
      recent? done 1 ≠ some .letWord ∧ typed? done token = some found := by
  unfold parameter? at h
  split at h
  · next hk => exact ⟨hk.1, hk.2.1, hk.2.2, h⟩
  · cases h

theorem recent?_of_typed? (h : typed? done token = some found) :
    recent? done 0 = some .datatype := by
  obtain ⟨type, htype, -⟩ := Option.map_eq_some_iff.mp h
  obtain ⟨last, hlast, htype⟩ := Option.bind_eq_some_iff.mp htype
  rw [recent?, ← List.head?_eq_getElem?, List.head?_reverse, hlast, Option.bind_some,
    kind?_of_type? htype]

/-- In front of a token, the scan declares a parameter just where the tokens write one. -/
theorem Recalls.declaresParameter (h : Recalls done s) : s.declarationKind? = some .parameter ↔
    recent? done 0 = some .datatype ∧ recent? done 1 ≠ some .fnWord ∧
      recent? done 1 ≠ some .letWord := by
  have hlast := h.last .datatype (by decide)
  have hkeyword (k : Kind) (hk : k.Unsigned) (h0 : recent? done 0 = some .datatype) :
      s.program.lexemes.kindFromEnd? 2 = some k ↔ recent? done 1 = some k :=
    ⟨h.before k hk, fun h1 => h.both k .datatype hk (by decide) h1 h0⟩
  have hsplit : s.declarationKind? = some .parameter ↔
      s.program.lexemes.kindFromEnd? 2 ≠ some .fnWord ∧
        s.program.lexemes.kindFromEnd? 2 ≠ some .letWord ∧
        s.program.lexemes.kindFromEnd? 1 = some .datatype := by
    simp only [Scan.State.declarationKind?, Lexeme.Table.declaresFunction,
      Lexeme.Table.declaresVariable, Lexeme.Table.declaresDatatype, beq_iff_eq]
    split
    · next hfn => simp [hfn]
    · next hfn =>
      split
      · next hlet => simp [hlet]
      · next hlet =>
        split
        · next hdatatype => simp [hfn, hlet, hdatatype]
        · next hdatatype => simp [hdatatype]
  rw [hsplit, hlast]
  constructor
  · rintro ⟨hfn, hlet, h0⟩
    exact ⟨h0, fun h1 => hfn ((hkeyword _ (by decide) h0).mpr h1),
      fun h1 => hlet ((hkeyword _ (by decide) h0).mpr h1)⟩
  · rintro ⟨h0, hfn, hlet⟩
    exact ⟨fun h2 => hfn ((hkeyword _ (by decide) h0).mp h2),
      fun h2 => hlet ((hkeyword _ (by decide) h0).mp h2), h0⟩

/-- The parameters in a scope are those of the library and those that the tokens declare there. -/
def Records [Limits] (done : List Token) (s : Scan.State) : Prop :=
  ∀ scope, s.program.symbols.parameters scope =
    (Symbol.Signature.library.filter (Symbol.isParameterOf scope)).map
        (fun x => (x.type, x.name)) ++
      gather (parameterIn? scope) [] done

theorem records_begin {n maxSymbols maxLexemes : Nat} {symbols : Symbol.Table}
    (h : (Symbol.Table.empty maxSymbols).registerLibrary = (.ok n, symbols)) :
    Records [] (.begin settings maxDepth symbols (.empty maxLexemes)) := by
  have hlist := Symbol.Table.toList_of_registerLibrary h
  intro scope
  show Symbol.Table.parameters symbols scope = _
  rw [Symbol.Table.parameters, hlist]
  exact (List.append_nil _).symm

/-- One token more writes no parameter, and none is added. -/
theorem Records.keep (h : Records done s) (hnone : parameter? done token = none)
    (hx : ∀ scope, t.program.symbols.parameters scope = s.program.symbols.parameters scope) :
    Records (done ++ [token]) t := by
  intro scope
  have hsay : parameterIn? scope done token = none := by
    unfold parameterIn?
    rw [hnone, ite_self]
  rw [hx, h scope, gather_concat, hsay, Option.toList_none, List.append_nil]

theorem Records.step (h : Records done s) (hknows : Knows maxDepth done s)
    (hs : Scan.Step token called s t) : Records (done ++ [token]) t := by
  have hdeclares := hknows.recalls.declaresParameter
  have hnone (hne : token.kind? = some .identifier → s.declarationKind? ≠ some .parameter) :
      parameter? done token = none := by
    cases hp : parameter? done token with
    | none => rfl
    | some found =>
      obtain ⟨hk, hfn, hlet, htyped⟩ := parameter?_eq_some hp
      exact absurd (hdeclares.mpr ⟨recent?_of_typed? htyped, hfn, hlet⟩) (hne hk)
  have hbracket (hb : token.opens ∨ token.closes) : parameter? done token = none := by
    refine hnone fun hk => ?_
    simp [not_bracket hk] at hb
  cases hs.effect with
  | opening ho _ _ _ hx => exact h.keep (hbracket (Or.inl ho)) fun scope => by rw [hx]
  | closing hc _ _ _ hx => exact h.keep (hbracket (Or.inr hc)) fun scope => by rw [hx]
  | @declaring kind type hk hd ht hscopes hf hx =>
    by_cases hparameter : kind = .parameter
    · subst hparameter
      have hk := hk.resolve_right fun h => by cases h.2
      obtain ⟨hlast, hfn, hlet⟩ := hdeclares.mp hd
      have hsome : parameter? done token = some (type, token.text) := by
        rw [parameter?, if_pos ⟨hk, hfn, hlet⟩, hknows.recalls.typed? hlast ht]
      intro scope
      rw [hx, Symbol.Table.parameters_add, h scope, gather_concat, List.append_assoc]
      congr 2
      rw [parameterIn?, hsome, ← hknows.current]
      by_cases hscope : s.scopes.current = scope
      · simp [Symbol.isParameterOf, Scan.State.declaration, Scan.State.prepare, Symbol.declared,
          hscope]
      · simp [Symbol.isParameterOf, Scan.State.declaration, Scan.State.prepare, Symbol.declared,
          hscope]
    · refine h.keep (hnone fun _ => ?_) fun scope => ?_
      · rw [hd]
        exact fun heq => hparameter (Option.some.inj heq)
      · rw [hx, Symbol.Table.parameters_add]
        simp [Symbol.isParameterOf, Scan.State.declaration, Symbol.declared, hparameter]
  | still ho hc hscopes hf hd hm hx =>
    refine h.keep (hnone fun hk => ?_) fun scope => ?_
    · simp [hd hk]
    · rcases hx with hx | ⟨x, hliteral, hx⟩
      · rw [hx]
      · rw [hx, Symbol.Table.parameters_add]
        simp [Symbol.isParameterOf, hliteral]

/-- What a token declares as a parameter does not depend on what stands in front of a bracket. -/
theorem parameter?_append {bracket : Token} (hb : bracket.opens ∨ bracket.closes) :
    parameter? (done ++ bracket :: before) token = parameter? before token := by
  have hne {k : Kind} (hk : k ≠ .openBrace ∧ k ≠ .openParen ∧ k ≠ .closeBrace ∧
      k ≠ .closeParen) : bracket.kind? ≠ some k := by
    intro h
    simp [not_bracket h hk] at hb
  have htype : bracket.type? = none := by
    cases ht : bracket.type? with
    | none => rfl
    | some type => exact absurd (kind?_of_type? ht) (hne (by decide))
  rw [List.append_cons]
  match before.reverse, before.reverse_reverse with
  | [], heq =>
    obtain rfl : before = [] := heq.symm
    simp [parameter?, typed?, htype]
  | [last], heq =>
    obtain rfl : before = [last] := heq.symm
    simp [parameter?, typed?, recent?, hne]
  | last :: previous :: earlier, heq =>
    obtain rfl : before = earlier.reverse ++ [previous, last] := by
      rw [← heq]
      simp
    simp [parameter?, typed?, recent?, List.getLast?_cons]

namespace Layout

variable {head : List Token} {name opening closing : Token}

/-- In front of its definition, a function encloses nothing. -/
theorem gather_head (h : Layout head type name opening list closing rest) :
    gather (parameterIn? name.text) [] head = [] := by
  refine gather_eq_nil fun before token after heq => if_neg fun henclosing => ?_
  obtain ⟨-, f, hlast, hf⟩ := exists_of_enclosing henclosing h.name_ne
  refine h.not_mem_functions (List.mem_map.mpr ⟨f, ?_, hf⟩)
  rw [heq, functions_append]
  exact List.mem_append_left _ (List.mem_of_getLast? hlast)

theorem parameterIn?_bracket {bracket : Token} (hb : bracket.opens ∨ bracket.closes) :
    parameterIn? scope done bracket = none := by
  cases hp : parameter? done bracket with
  | none => rw [parameterIn?, hp, ite_self]
  | some found => simp [not_bracket (parameter?_eq_some hp).1] at hb

theorem gather_name (h : Layout head type name opening list closing rest) :
    gather (parameterIn? name.text) head [name, opening] = [] := by
  have hname : parameterIn? name.text head name = none := by
    rw [parameterIn?, enclosing, if_pos h.names.1, if_neg h.name_ne.symm]
  simp only [gather, hname, parameterIn?_bracket (Or.inl h.opening), Option.toList_none,
    List.append_nil]

theorem gather_list (h : Layout head type name opening list closing rest) :
    gather (parameterIn? name.text) (head ++ [name, opening]) list = parameters list := by
  refine gather_congr fun before token after heq => ?_
  have hdone : head ++ [name, opening] ++ before = head ++ name :: opening :: before := by simp
  rw [hdone, parameterIn?, if_pos (h.enclosing_list ⟨token :: after, heq.symm⟩), List.append_cons,
    parameter?_append (Or.inl h.opening), List.nil_append]

theorem gather_body (h : Layout head type name opening list closing rest)
    {body : List Token} (hbody : ∀ token ∈ body, token.kind? ≠ some .fnWord) :
    gather (parameterIn? name.text) (head ++ name :: opening :: (list ++ [closing])) body =
      innerParameters body := by
  refine gather_congr fun before token after heq => ?_
  have hdone : head ++ name :: opening :: (list ++ [closing]) ++ before =
      head ++ name :: opening :: (list ++ closing :: before) := by simp
  have hbracket : head ++ name :: opening :: (list ++ closing :: before) =
      (head ++ name :: opening :: list) ++ closing :: before := by simp
  rw [hdone, parameterIn?, h.enclosing_behind fun x hx => hbody x (by simp [heq, hx]), hbracket,
    parameter?_append (Or.inr h.closing), List.nil_append]
  by_cases hsettled : opened before = closed before
  · rw [if_pos hsettled, if_pos hsettled, if_neg h.name_ne.symm]
  · rw [if_neg hsettled, if_neg hsettled, if_pos rfl]

/-- The parameters of the function: those of the list, and those in brackets up to the next `fn`. -/
theorem gather_eq (h : Layout head type name opening list closing rest) :
    gather (parameterIn? name.text) []
        (head ++ name :: opening :: (list ++ closing :: rest)) =
      parameters list ++ innerParameters (beforeFunction rest) := by
  have hsplit : beforeFunction rest ++ rest.dropWhile (·.kind? != some .fnWord) = rest :=
    List.takeWhile_append_dropWhile
  have hbody : ∀ token ∈ beforeFunction rest, token.kind? ≠ some .fnWord := fun token htoken => by
    simpa using List.mem_takeWhile_imp htoken
  have hbehind : gather (parameterIn? name.text)
      (head ++ name :: opening :: (list ++ closing :: beforeFunction rest))
      (rest.dropWhile (·.kind? != some .fnWord)) = [] := by
    refine gather_eq_nil fun before token after heq => if_neg ?_
    cases hdrop : rest.dropWhile (·.kind? != some .fnWord) with
    | nil => simp [hdrop] at heq
    | cons word tail =>
      have hword : word.kind? = some .fnWord := by
        have := List.head?_dropWhile_not (fun t : Token => t.kind? != some .fnWord) rest
        rw [hdrop] at this
        simpa using this
      rw [hdrop] at hsplit heq
      rw [← hsplit] at h
      exact h.enclosing_ne hbody hword ⟨token :: after, heq.symm⟩
  have hall : head ++ name :: opening :: (list ++ closing :: rest) =
      head ++ ([name, opening] ++ (list ++ ([closing] ++
        (beforeFunction rest ++ rest.dropWhile (·.kind? != some .fnWord))))) := by
    rw [hsplit]
    simp
  have hlist : head ++ [name, opening] ++ list = head ++ name :: opening :: list := by simp
  have hclosing : head ++ name :: opening :: list ++ [closing] =
      head ++ name :: opening :: (list ++ [closing]) := by simp
  have hrest : head ++ name :: opening :: (list ++ [closing]) ++ beforeFunction rest =
      head ++ name :: opening :: (list ++ closing :: beforeFunction rest) := by simp
  have hbracket (done : List Token) : gather (parameterIn? name.text) done [closing] = [] := by
    simp only [gather, parameterIn?_bracket (Or.inr h.closing), Option.toList_none, List.append_nil]
  rw [hall, gather_append, gather_append, gather_append, gather_append, gather_append,
    List.nil_append, h.gather_head, h.gather_name, h.gather_list, hlist, hclosing, hbracket,
    h.gather_body hbody, hrest, hbehind, List.nil_append, List.nil_append, List.nil_append,
    List.append_nil]

end Layout

variable {maxSymbols maxLexemes n : Nat} {symbols : Symbol.Table} {metrics : Metrics} {f : Symbol}
  {p : Program}

theorem records_of_scanTokens
    (hr : (Symbol.Table.empty maxSymbols).registerLibrary = (.ok n, symbols))
    (hf : FunctionsOutside tokens)
    (hs : Scan.scanTokens tokens (.begin settings maxDepth symbols (.empty maxLexemes)) =
      .ok () t) :
    Records tokens t := by
  rw [← List.append_nil tokens] at hs
  obtain ⟨u, hu, hlast⟩ := Scan.scanTokens_append.mp hs
  obtain ⟨-, rfl⟩ := Scan.pure_eq_ok.mp hlast
  have hrun := Scan.scanBefore_induction
    (P := fun done u => Knows maxDepth done u ∧ Records done u) ?_
    ⟨knows_begin hr, records_begin hr⟩ hu
  · exact hrun.2
  · rintro done token after called u v heq ⟨hknows, hrecords⟩ hstep
    exact ⟨hknows.step (heq ▸ hf) hstep, hrecords.step hknows hstep⟩

/-- A function that is not in the library is one that the tokens define. -/
theorem Traced.mem_functions {i : Nat} (h : Traced p)
    (hfunctions : p.symbols.functions = Symbol.Signature.functions ++ functions tokens)
    (hi : 5 ≤ i) (hget : p.symbols.get? i = some f) (hk : f.kind = .function) :
    (f.type, f.name) ∈ functions tokens := by
  obtain ⟨own, hown⟩ := h.library
  have hlibrary : (Symbol.Signature.library.filter (·.isFunction)).map (fun x => (x.type, x.name)) =
      Symbol.Signature.functions := by decide
  rw [Symbol.Table.functions, ← hown, List.filter_append, List.map_append, hlibrary] at hfunctions
  have hlength : Symbol.Signature.library.length = 5 := by decide
  rw [Symbol.Table.get?_eq_getElem?, ← hown, List.getElem?_append_right (by omega)] at hget
  rw [← List.append_cancel_left hfunctions]
  have hfunction : f.isFunction = true := beq_iff_eq.mpr hk
  exact List.mem_map_of_mem (List.mem_filter.mpr ⟨List.mem_of_getElem? hget, hfunction⟩)

/-- A function that is not of the library has a name that none of the library has. -/
theorem library_parameters
    (hnodup : ((Symbol.Signature.functions ++ functions tokens).map (·.2)).Nodup)
    (hmem : name ∈ (functions tokens).map (·.2)) :
    Symbol.Signature.library.filter (Symbol.isParameterOf name) = [] := by
  rw [List.filter_eq_nil_iff]
  intro x hx hparameter
  have hscopes : ∀ x ∈ Symbol.Signature.library, x.kind = .parameter →
      x.scope ∈ Symbol.Signature.functions.map (·.2) := by decide
  simp only [Symbol.isParameterOf, Bool.and_eq_true, beq_iff_eq] at hparameter
  have hlibrary := hscopes x hx hparameter.1
  rw [List.map_append] at hnodup
  exact (List.nodup_append.mp hnodup).2.2 _ hlibrary name hmem hparameter.2

/-- Every function of a token list whose brackets are settled has a list between brackets. -/
theorem SignaturesOutside.layout (h : SignaturesOutside tokens)
    (hnodup : ((functions tokens).map (·.2)).Nodup) (hsettled : opened tokens = closed tokens)
    (hmem : (type, scope) ∈ functions tokens) :
    ∃ before word typeToken name opening list closing rest,
      tokens = before ++ word :: typeToken :: name :: opening :: (list ++ closing :: rest) ∧
      word.kind? = some .fnWord ∧ typeToken.type? = some type ∧ name.text = scope ∧
      opening.kind? = some .openParen ∧
      Layout (before ++ [word, typeToken]) type name opening list closing rest := by
  obtain ⟨head, name, after, htokens, hname⟩ := mem_gather.mp hmem
  rw [List.nil_append] at hname
  obtain ⟨hkeyword, htyped⟩ : recent? head 1 = some .fnWord ∧
      typed? head name = some (type, scope) := by
    unfold function? at hname
    split at hname
    · next hkeyword => exact ⟨hkeyword, hname⟩
    · cases hname
  obtain ⟨before, word, typeToken, rfl, hword⟩ := eq_append_of_recent? hkeyword
  obtain ⟨htype, rfl⟩ : typeToken.type? = some type ∧ name.text = scope := by
    simpa [typed?] using htyped
  obtain ⟨opening, after, rfl, hopening⟩ : ∃ opening rest, after = opening :: rest ∧
      opening.kind? = some .openParen := by
    have hnext := h.2 before.length (by simp [htokens]) (by simpa [htokens] using hword)
    rw [htokens, List.append_assoc, List.getElem?_append_right (Nat.le_add_right _ _),
      Nat.add_sub_cancel_left] at hnext
    cases after with
    | nil => cases hnext
    | cons opening after => exact ⟨opening, after, rfl, hnext⟩
  subst htokens
  have hopens : opening.opens := by
    rw [Token.opens, spells_bracket (by decide), spells_bracket (by decide), hopening]
    rfl
  have hcloses : opening.closes = false := not_closes_of_opens hopens
  obtain ⟨-, hdepth, hkind⟩ := h.1.name hkeyword
  have hbrackets : name.opens = false ∧ name.closes = false := by
    rcases hkind with hk | hk <;> exact not_bracket hk (by decide)
  have hopen : opened after < closed after := by
    rw [opened_append, closed_append, opened_cons, closed_cons, opened_cons, closed_cons,
      hbrackets.1, hbrackets.2, hopens, hcloses] at hsettled
    simp only [Bool.toNat_false, Bool.toNat_true] at hsettled
    omega
  obtain ⟨list, closing, rest, rfl, hclosing, hmatched⟩ := exists_closing hopen
  exact ⟨before, word, typeToken, name, opening, list, closing, rest, by simp, hword, htype, rfl,
    hopening, h.1, hnodup, hkeyword, htyped, hopens, hclosing, hmatched⟩

/-- Where functions are defined outside of brackets, an accepted scan records for each of them the
parameters of its list, and behind them those that its body declares without `let`. -/
theorem scan_signatures
    (h : (scan settings maxDepth tokens (empty maxSymbols maxLexemes)).result = .ok metrics)
    (hf : SignaturesOutside tokens) :
    SignaturesRecorded (scan settings maxDepth tokens (empty maxSymbols maxLexemes)).program
      tokens := by
  obtain ⟨n, symbols, t, hr, hs, hc, hscan⟩ := steps_of_scan h
  rw [hscan]
  have hr : (Symbol.Table.empty maxSymbols).registerLibrary = (.ok n, symbols) := hr
  obtain ⟨hfunctions, hnodup⟩ := functions_of_scanTokens hr hf.1 hs
  obtain ⟨hfollows, pieces, hpieces⟩ := assembled_of_steps hr hs
  have hbalanced := (hpieces.settles hfollows hc).balanced
  have hsettled : opened tokens = closed tokens := by
    rw [opened_eq, closed_eq, hbalanced.parens, hbalanced.braces]
  have hgrows := (ready_library hr).grows hs
  have htraced := hgrows.traced (traced_library hr)
  have hown := hnodup
  rw [List.map_append] at hown
  intro i f hi hget hk
  have hmem := htraced.mem_functions hfunctions hi hget hk
  obtain ⟨before, word, typeToken, name, opening, list, closing, rest, rfl, hword, htype, hname,
    hopening, hlayout⟩ := hf.layout (List.nodup_append.mp hown).2.1 hsettled hmem
  refine ⟨list, rest, ⟨⟨before, word, typeToken, name, opening, closing, rfl, hword, htype, hname,
    hopening, hlayout.closing⟩, hlayout.matched⟩, ?_⟩
  have hall : before ++ word :: typeToken :: name :: opening :: (list ++ closing :: rest) =
      before ++ [word, typeToken] ++ name :: opening :: (list ++ closing :: rest) := by simp
  rw [records_of_scanTokens hr hf.1 hs f.name,
    library_parameters hnodup (List.mem_map.mpr ⟨_, hmem, rfl⟩), ← hname, hall, hlayout.gather_eq]
  rfl

end

attribute [local instance] Limits.development

/-- A function with two parameters, and one whose body declares another. -/
def signed : List Token :=
  oneLine 1 ["fn", "i32", "f", "(", "i32", "a", ",", "str", "b", ")", "\x7b", "\x7d"] ++
  oneLine 2 ["fn", "i32", "main", "(", ")", "\x7b", "i32", "c", ";", "\x7d"]

theorem signaturesRecorded_signed : SignaturesOutside signed ∧
    SignaturesRecorded (scan {} 1 signed (empty 10 22)).program signed := by
  have hresult : (scan {} 1 signed (empty 10 22)).result = .ok
      { tokens := 22, lexemes := 22, symbols := 10, declarations := 5, maxScopeDepth := 1 } := by
    cbv
  have houtside : SignaturesOutside signed := by decide +kernel
  exact ⟨houtside, scan_signatures hresult houtside⟩

/-- Every datatype in a token list with the identifier right behind it. -/
def pairs [Limits] (tokens : List Token) : List (DataType × String) :=
  gather (fun done token => if token.kind? = some .identifier then typed? done token else none) []
    tokens

/-- The parameters of every function that is not in the library are those of its list. -/
def SignaturesWritten [Limits] (p : Program) (tokens : List Token) : Prop :=
  ∀ i f, 5 ≤ i → p.symbols.get? i = some f → f.kind = .function →
    ∃ list rest, Definition tokens f list rest ∧ p.symbols.parameters f.name = pairs list

/-- A variable in the list of a function, and a parameter in its body. -/
def misplaced : List Token :=
  oneLine 1 ["fn", "i32", "main", "(", "let", "i32", "a", ")", "\x7b", "i32", "b", ";", "\x7d"]

/-- What stands behind `let` is no parameter, and what stands behind a datatype in a body is one. -/
theorem not_signaturesWritten_misplaced : (scan {} 1 misplaced (empty 8 13)).result.isOk = true ∧
    SignaturesOutside misplaced ∧
    ¬ SignaturesWritten (scan {} 1 misplaced (empty 8 13)).program misplaced := by
  refine ⟨by cbv, by decide +kernel, fun h => ?_⟩
  have hmain : (scan {} 1 misplaced (empty 8 13)).program.symbols.get? 5 =
      some ⟨"main", "", some 2, .i32, .function, none⟩ := by cbv
  have hparameters : (scan {} 1 misplaced (empty 8 13)).program.symbols.parameters "main" =
      [(.i32, "b")] := by cbv
  obtain ⟨list, rest, ⟨⟨before, word, type, name, opening, closing, htokens, hword, -⟩, -⟩,
    hpairs⟩ := h 5 _ (by decide) hmain rfl
  have hlength : 13 = before.length + (list.length + (rest.length + 1) + 4) := by
    have := congrArg List.length htokens
    simpa [misplaced, oneLine] using this
  -- there is one `fn`, so the list is one of the beginnings of what comes behind its bracket
  have hbefore : before.length = 0 := by
    have honly : ∀ q < 13, misplaced[q]?.bind Token.kind? = some .fnWord → q = 0 := by
      decide +kernel
    exact honly _ (by omega) (by simpa [htokens] using hword)
  have hlist : list = (misplaced.drop 4).take list.length := by
    rw [htokens, List.eq_nil_of_length_eq_zero hbefore]
    exact List.take_left.symm
  have hnot : ∀ n < 10, pairs ((misplaced.drop 4).take n) ≠ [(.i32, "b")] := by decide +kernel
  refine hnot list.length (by omega) ?_
  rw [← hlist, ← hpairs]
  exact hparameters

end Program
end Ttm
