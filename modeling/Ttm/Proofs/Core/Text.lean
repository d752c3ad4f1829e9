import Ttm.Proofs.Core.Declare

/-! The words of a well-formed program can be read from its beginning to its end. -/
namespace Ttm.Core

open Lexeme (Kind)
open Postfix (Level)
open Ttm.Symbol (Declaration Key Signature)

variable {limits : Limits} {limit : Nat} {p q : Place} {vars callees : List String}
  {rest : List Word} {level : Level} {first : Bool}

/-- At a place these variables and functions are known. -/
structure Offers [Limits] (p : Place) (vars callees : List String) : Prop where
  vars : ∀ v ∈ vars, IsName v ∧ v ≠ p.scope ∧
    ∃ kind, (kind = .var ∨ kind = .parameter) ∧ ⟨p.scope, v, kind⟩ ∈ p.declared
  callees : ∀ c ∈ callees, IsName c ∧ ⟨Symbol.globalScope, c, .function⟩ ∈ p.declared

theorem Offers.nest {nest : Nat} (h : Offers p vars callees) :
    Offers { p with nest } vars callees := ⟨h.vars, h.callees⟩

theorem opens_mark {k : Kind} (hk : (k.text == "(") = false) : opens (.mark k :: rest) = false := hk

namespace Readable

theorem plain {k : Kind} (hfixed : k ∈ Kind.fixed) (hk : Program.Scan.isPlain k ∨ k = .minus)
    (hdeclares : k ≠ .fnWord ∧ k ≠ .letWord ∧ k ≠ .datatype) (h : Readable limit p rest q) :
    Readable limit p (.mark k :: rest) q :=
  .word (.plain hfixed hk hdeclares) h

theorem opening {k : Kind} (hk : k = .openBrace ∨ k = .openParen) (hnest : p.nest < limit)
    (h : Readable limit { p with nest := p.nest + 1 } rest q) :
    Readable limit p (.mark k :: rest) q :=
  .word (.opening hk hnest) h

theorem closing {k : Kind} (h : Readable limit p rest q) (hk : k = .closeBrace ∨ k = .closeParen) :
    Readable limit { p with nest := p.nest + 1 } (.mark k :: rest) q :=
  .word (.closing hk rfl) h

theorem arithmetic {k : Kind} (hk : k.isArithmetic) (h : Readable limit p rest q) :
    Readable limit p (.mark k :: rest) q := by
  refine plain ?_ ?_ ?_ h <;> cases k <;> first | decide | cases hk

end Readable

theorem opens_arithmetic {k : Kind} (hk : k.isArithmetic) : opens (.mark k :: rest) = false := by
  refine opens_mark ?_
  cases k <;> first | decide | cases hk

/-- An expression is read where its names are known and its parentheses may be opened. -/
theorem Expr.readable (e : Expr level first) (hp : Offers p vars callees)
    (he : e.Uses vars callees) (hnest : 0 < p.nest) (hdepth : p.nest + e.depth ≤ limit)
    (hopens : opens rest = false) (h : Readable limit p rest q) :
    Readable limit p (e.words p.scope ++ rest) q := by
  induction e generalizing p rest with
  | integer digits => exact .word (.integer he.1 he.2) h
  | text content => exact .word (.text he.1 he.2) h
  | var name =>
    obtain ⟨hname, hself, kind, hkind, hd⟩ := hp.vars name he
    exact .word (.var hname hkind hd hself hopens hnest) h
  | group e ih =>
    rw [depth] at hdepth
    simp only [words, List.cons_append, List.append_assoc]
    refine Readable.opening (Or.inr rfl) (by omega) ?_
    exact ih hp.nest he (Nat.succ_pos _) (by simp only; omega) rfl (h.closing (Or.inr rfl))
  | callNone callee =>
    obtain ⟨hname, hd⟩ := hp.callees callee he
    rw [depth] at hdepth
    refine .word (.callee hname hd rfl) ?_
    exact Readable.opening (Or.inr rfl) (by simp only; omega) (h.closing (Or.inr rfl))
  | call callee arguments ih =>
    obtain ⟨hname, hd⟩ := hp.callees callee he.1
    rw [depth] at hdepth
    simp only [words, List.cons_append, List.append_assoc]
    refine .word (.callee hname hd rfl) (Readable.opening (Or.inr rfl) (by simp only; omega) ?_)
    exact ih hp.nest he.2 (Nat.succ_pos _) (by simp only; omega) rfl (h.closing (Or.inr rfl))
  | negate e ih => exact .arithmetic rfl (ih hp he hnest hdepth hopens h)
  | ofFactor e ih | ofProduct e ih | ofSum e ih => exact ih hp he hnest hdepth hopens h
  | multiply left operator right ihl ihr =>
    have hk := (Postfix.priority_of_multiplicative operator.2).1
    rw [depth] at hdepth
    rw [words, List.append_assoc]
    refine ihl hp he.1 hnest (by omega) (opens_arithmetic hk) (.arithmetic hk ?_)
    exact ihr hp he.2 hnest (by omega) hopens h
  | add left operator right ihl ihr =>
    have hk := (Postfix.priority_of_additive operator.2).1
    rw [depth] at hdepth
    rw [words, List.append_assoc]
    refine ihl hp he.1 hnest (by omega) (opens_arithmetic hk) (.arithmetic hk ?_)
    exact ihr hp he.2 hnest (by omega) hopens h
  | append left right ihl ihr =>
    rw [depth] at hdepth
    rw [words, List.append_assoc]
    refine ihl hp he.1 hnest (by omega) rfl
      (Readable.plain (by decide) (Or.inl rfl) (by decide) ?_)
    exact ihr hp he.2 hnest (by omega) hopens h

theorem Statement.readable (s : Statement) (hp : Offers p vars callees)
    (hs : s.Uses vars callees) (hnest : 0 < p.nest) (hdepth : p.nest + s.expression.depth ≤ limit)
    (h : Readable limit p rest q) : Readable limit p (s.words p.scope ++ rest) q := by
  have hsemicolon : Readable limit p (semicolon :: rest) q :=
    .plain (by decide) (Or.inl rfl) (by decide) h
  have hexpression := s.expression.readable hp hs.1 hnest hdepth rfl hsemicolon
  rw [words, List.append_assoc, List.append_assoc]
  cases s with
  | assign name e =>
    obtain ⟨hname, hself, kind, hkind, hd⟩ := hp.vars name hs.2
    refine .word (.var hname hkind hd hself rfl hnest) ?_
    exact Readable.plain (by decide) (Or.inl rfl) (by decide) hexpression
  | ret e | echo e => exact Readable.plain (by decide) (Or.inl rfl) (by decide) hexpression
  | callNone | call => exact hexpression

/-- A variable is declared in the current scope. -/
def Place.declare (p : Place) (kind : SymbolKind) (vs : List Variable) : Place :=
  { p with declared := p.declared ++ vs.map (⟨p.scope, ·.name, kind⟩) }

/-- These variables can be declared one after another. -/
structure Declarable [Limits] (p : Place) (vs : List Variable) : Prop where
  types : ∀ v ∈ vs, v.type ≠ .undefined
  names : ∀ v ∈ vs, IsName v.name ∧ v.name ≠ p.scope
  distinct : (vs.map (·.name)).Nodup
  new : ∀ v ∈ vs, .name p.scope v.name ∉ p.declared.map (·.key)

theorem Declarable.nest {vs : List Variable} {nest : Nat} (h : Declarable p vs) :
    Declarable { p with nest } vs := ⟨h.types, h.names, h.distinct, h.new⟩

theorem Declarable.tail {v : Variable} {vs : List Variable} (h : Declarable p (v :: vs))
    (kind : SymbolKind) : Declarable (p.declare kind [v]) vs where
  types := fun x hx => h.types x (List.mem_cons_of_mem v hx)
  names := fun x hx => h.names x (List.mem_cons_of_mem v hx)
  distinct := (List.nodup_cons.mp h.distinct).2
  new := by
    intro x hx hmem
    have hdistinct := (List.nodup_cons.mp h.distinct).1
    simp only [Place.declare, List.map_append, List.map_singleton, List.mem_append,
      List.mem_singleton] at hmem
    rcases hmem with hmem | hmem
    · exact h.new x (List.mem_cons_of_mem v hx) hmem
    · refine hdistinct (List.mem_map.mpr ⟨x, hx, ?_⟩)
      exact (Key.name.inj hmem).2

theorem Place.declare_cons {kind : SymbolKind} {v : Variable} {vs : List Variable} :
    p.declare kind (v :: vs) = (p.declare kind [v]).declare kind vs := by
  simp [Place.declare]

theorem Declarable.append {xs ys : List Variable} (h : Declarable p (xs ++ ys))
    (kind : SymbolKind) : Declarable (p.declare kind xs) ys := by
  induction xs generalizing p with
  | nil => simpa [Place.declare] using h
  | cons x xs ih =>
    rw [Place.declare_cons]
    exact ih (Declarable.tail h kind)

theorem Declarable.left {xs ys : List Variable} (h : Declarable p (xs ++ ys)) :
    Declarable p xs where
  types := fun x hx => h.types x (List.mem_append_left _ hx)
  names := fun x hx => h.names x (List.mem_append_left _ hx)
  distinct := List.Nodup.of_append_left (by simpa using h.distinct)
  new := fun x hx => h.new x (List.mem_append_left _ hx)

namespace Function

variable {f : Function}

theorem readable_parameter {v : Variable} (hscope : p.scope = f.name) (h : Declarable p [v])
    (hnest : 0 < p.nest) (hopens : opens rest = false)
    (hrest : Readable limit (p.declare .parameter [v]) rest q) :
    Readable limit p (f.parameterWords v ++ rest) q := by
  have hv := List.mem_singleton_self v
  rw [parameterWords, ← hscope]
  exact .parameter hnest (h.types v hv) (h.names v hv).1 (h.names v hv).2 hopens (h.new v hv) hrest

/-- Parameters behind the first one. -/
theorem readable_more {vs : List Variable} (hscope : p.scope = f.name) (h : Declarable p vs)
    (hnest : 0 < p.nest) (hopens : opens rest = false)
    (hrest : Readable limit (p.declare .parameter vs) rest q) :
    Readable limit p (vs.flatMap (Expr.comma :: f.parameterWords ·) ++ rest) q ∧
      opens (vs.flatMap (Expr.comma :: f.parameterWords ·) ++ rest) = false := by
  induction vs generalizing p with
  | nil => exact ⟨by simpa [Place.declare] using hrest, hopens⟩
  | cons v vs ih =>
    rw [Place.declare_cons] at hrest
    obtain ⟨hmore, hopens'⟩ :=
      ih (p := p.declare .parameter [v]) hscope (h.tail .parameter) hnest hrest
    rw [List.flatMap_cons, List.append_assoc]
    refine ⟨?_, rfl⟩
    exact Readable.plain (by decide) (Or.inl rfl) (by decide)
      (readable_parameter hscope (@Declarable.left limits p [v] vs h) hnest hopens' hmore)

theorem readable_parameterList (hscope : p.scope = f.name) (h : Declarable p f.parameters)
    (hnest : 0 < p.nest) (hopens : opens rest = false)
    (hrest : Readable limit (p.declare .parameter f.parameters) rest q) :
    Readable limit p (f.parameterList ++ rest) q := by
  unfold parameterList
  cases hps : f.parameters with
  | nil => simpa [hps, Place.declare] using hrest
  | cons v vs =>
    rw [hps] at h hrest
    rw [Place.declare_cons] at hrest
    obtain ⟨hmore, hopens'⟩ :=
      readable_more (p := p.declare .parameter [v]) hscope (h.tail .parameter) hnest hopens hrest
    rw [List.append_assoc]
    exact readable_parameter hscope (@Declarable.left limits p [v] vs h) hnest hopens' hmore

theorem readable_locals {vs : List Variable} (hscope : p.scope = f.name) (h : Declarable p vs)
    (hnest : 0 < p.nest) (hrest : Readable limit (p.declare .var vs) rest q) :
    Readable limit p (vs.flatMap f.localWords ++ rest) q := by
  induction vs generalizing p with
  | nil => simpa [Place.declare] using hrest
  | cons v vs ih =>
    rw [Place.declare_cons] at hrest
    have hv := List.mem_cons_self (a := v) (l := vs)
    have hmore := ih (p := p.declare .var [v]) hscope (h.tail .var) hnest hrest
    rw [List.flatMap_cons, List.append_assoc, localWords, ← hscope]
    refine .localVariable hnest (h.types v hv) (h.names v hv).1 (h.names v hv).2 rfl (h.new v hv) ?_
    exact Readable.plain (by decide) (Or.inl rfl) (by decide) hmore

theorem readable_statements {body : List Statement} (hscope : p.scope = f.name)
    (hp : Offers p vars callees) (hbody : ∀ s ∈ body, s.Uses vars callees) (hnest : p.nest = 1)
    (hdepth : ∀ s ∈ body, s.expression.depth < limit) (hrest : Readable limit p rest q) :
    Readable limit p (body.flatMap (·.words f.name) ++ rest) q := by
  induction body with
  | nil => exact hrest
  | cons s body ih =>
    have hmore := ih (fun s hs => hbody s (List.mem_cons_of_mem _ hs))
      (fun s hs => hdepth s (List.mem_cons_of_mem _ hs))
    have hs := List.mem_cons_self (a := s) (l := body)
    have hlimit := hdepth s hs
    rw [List.flatMap_cons, List.append_assoc, ← hscope]
    rw [← hscope] at hmore
    exact s.readable hp (hbody s hs) (by omega) (by omega) hmore

/-- The place behind a function. -/
def place (f : Function) (p : Place) : Place :=
  { p with scope := f.name, declared := p.declared ++ f.declarations }

theorem names_nameWord (h : f.isEntry ∨ IsName f.name) (htype : f.isEntry → f.type = .i32) :
    Names f.nameWord f.name f.type := by
  unfold nameWord
  by_cases hentry : f.isEntry
  · rw [if_pos hentry]
    exact Or.inr ⟨rfl, by simpa [isEntry] using hentry, htype hentry⟩
  · rw [if_neg hentry]
    exact Or.inl ⟨rfl, h.resolve_left hentry⟩

/-- A function is read at the top up to its first statement, and the names it declares are known
there. -/
theorem readable_header (hnest : p.nest = 0) (htype : f.type ≠ .undefined)
    (hword : Names f.nameWord f.name f.type)
    (hnew : .name Symbol.globalScope f.name ∉ p.declared.map (·.key))
    (hvars : Declarable { p with
      scope := f.name, declared := p.declared ++ [⟨Symbol.globalScope, f.name, .function⟩] } f.vars)
    (hlimit : 0 < limit) (hrest : Readable limit { f.place p with nest := p.nest + 1 } rest q) :
    Readable limit p (f.header ++ rest) q := by
  have hopen : p.nest < limit := by omega
  have hparameters := hvars.left
  have hlocals := hvars.append .parameter
  have hplace : f.place p = (Place.declare { p with
      scope := f.name
      declared := p.declared ++ [⟨Symbol.globalScope, f.name, .function⟩] }
      .parameter f.parameters).declare .var f.locals := by
    simp [place, Place.declare, declarations]
  rw [hplace] at hrest
  simp only [header, List.append_assoc, List.cons_append, List.nil_append]
  refine .function hnest htype hword hnew (Readable.opening (Or.inr rfl) hopen ?_)
  refine readable_parameterList rfl hparameters.nest (Nat.succ_pos _) rfl ?_
  refine Readable.closing (p := Place.declare { p with
      scope := f.name
      declared := p.declared ++ [⟨Symbol.globalScope, f.name, .function⟩] }
      .parameter f.parameters) (k := .closeParen) ?_ (Or.inr rfl)
  refine Readable.opening (Or.inl rfl) hopen ?_
  exact readable_locals rfl hlocals.nest (Nat.succ_pos _) hrest

end Function

/-- The names that the library declares. -/
def libraryDeclarations : List Declaration :=
  Signature.library.map fun x => ⟨x.scope, x.name, x.kind⟩

/-- The place behind some functions. -/
def Place.behind (before : List Function) (scope : String) : Place :=
  ⟨libraryDeclarations ++ before.flatMap (·.declarations), scope, 0⟩

/-- The names of functions, those of the library first. -/
def functionNames (fs : List Function) : List String :=
  Signature.all.map (·.name) ++ fs.map (·.name)

theorem library_declared : ∀ d ∈ libraryDeclarations,
    d.scope = Symbol.globalScope ∧ d.name ∈ Signature.all.map (·.name) ∨
      d.scope ∈ Signature.all.map (·.name) := by decide

/-- A declared name is a function, or belongs to one. -/
theorem declared_behind {before : List Function} {d : Declaration}
    (hd : d ∈ libraryDeclarations ++ before.flatMap (·.declarations)) :
    d.scope = Symbol.globalScope ∧ d.name ∈ functionNames before ∨
      d.scope ∈ functionNames before := by
  rcases List.mem_append.mp hd with hd | hd
  · exact (library_declared d hd).imp (And.imp_right (List.mem_append_left _))
      (List.mem_append_left _)
  · obtain ⟨f, hf, hd⟩ := List.mem_flatMap.mp hd
    have hname : f.name ∈ functionNames before :=
      List.mem_append_right _ (List.mem_map_of_mem hf)
    simp only [Function.declarations, List.cons_append, List.mem_cons, List.mem_append,
      List.mem_map] at hd
    rcases hd with rfl | ⟨v, -, rfl⟩ | ⟨v, -, rfl⟩
    · exact Or.inl ⟨rfl, hname⟩
    · exact Or.inr hname
    · exact Or.inr hname

theorem name_not_library {f : Function} (h : f.isEntry ∨ IsName f.name ∧
    f.name ∉ Signature.all.map (·.name)) :
    f.name ≠ Symbol.globalScope ∧ f.name ∉ Signature.all.map (·.name) := by
  rcases h with h | ⟨hname, hlibrary⟩
  · have hmain : f.name = Kind.mainWord.text := by simpa [Function.isEntry] using h
    rw [hmain]
    decide
  · refine ⟨?_, hlibrary⟩
    intro hglobal
    rw [hglobal] at hname
    exact absurd hname nofun

theorem library_functions : ∀ c ∈ Signature.all.map (·.name),
    ⟨Symbol.globalScope, c, .function⟩ ∈ libraryDeclarations := by decide

section

variable {fs before after : List Function} {f : Function}

theorem WellFormed.not_behind (h : WellFormed fs) (hfs : fs = before ++ f :: after) :
    f.name ∉ functionNames before ∧ Symbol.globalScope ∉ functionNames before := by
  have hnames : ∀ g ∈ fs, g.name ≠ Symbol.globalScope ∧ g.name ∉ Signature.all.map (·.name) :=
    fun g hg => name_not_library (h.names g hg)
  have hdistinct := h.distinct
  rw [hfs, List.map_append, List.map_cons] at hdistinct
  constructor
  · intro hmem
    rcases List.mem_append.mp hmem with hmem | hmem
    · exact (hnames f (by simp [hfs])).2 hmem
    · exact (List.nodup_append.mp hdistinct).2.2 _ hmem _ List.mem_cons_self rfl
  · intro hmem
    rcases List.mem_append.mp hmem with hmem | hmem
    · exact absurd hmem (by decide)
    · obtain ⟨g, hg, hname⟩ := List.mem_map.mp hmem
      exact (hnames g (by simp [hfs, hg])).1 hname

theorem WellFormed.new (h : WellFormed fs) (hfs : fs = before ++ f :: after) {scope name : String}
    (hname : scope = Symbol.globalScope ∧ name = f.name ∨ scope = f.name) :
    .name scope name ∉ (Place.behind before p.scope).declared.map (·.key) := by
  obtain ⟨hf, hglobal⟩ := h.not_behind hfs
  intro hmem
  obtain ⟨d, hd, hkey⟩ := List.mem_map.mp hmem
  obtain ⟨rfl, rfl⟩ : d.scope = scope ∧ d.name = name := Key.name.inj hkey
  rcases declared_behind hd with ⟨hscope, hbehind⟩ | hbehind
  · rcases hname with ⟨-, hname⟩ | hname
    · exact hf (hname ▸ hbehind)
    · exact (name_not_library (h.names f (by simp [hfs]))).1 (hname.symm.trans hscope)
  · rcases hname with ⟨hscope, -⟩ | hname
    · exact hglobal (hscope ▸ hbehind)
    · exact hf (hname ▸ hbehind)

theorem WellFormed.declarable (h : WellFormed fs) (hfs : fs = before ++ f :: after)
    (scope : String) :
    Declarable { Place.behind before scope with
      scope := f.name
      declared := (Place.behind before scope).declared ++
        [⟨Symbol.globalScope, f.name, .function⟩] } f.vars := by
  have hf := h.functions before f after hfs
  have hdistinct := List.nodup_cons.mp hf.distinct
  refine ⟨hf.types, fun v hv => ⟨hf.names v hv, fun hname => ?_⟩, hdistinct.2,
    fun v hv hmem => ?_⟩
  · exact hdistinct.1 (List.mem_map.mpr ⟨v, hv, hname⟩)
  · rw [List.map_append, List.mem_append] at hmem
    rcases hmem with hmem | hmem
    · exact h.new (p := ⟨[], scope, 0⟩) hfs (Or.inr rfl) hmem
    · have hglobal := (name_not_library (h.names f (by simp [hfs]))).1
      exact hglobal (Key.name.inj (List.mem_singleton.mp hmem)).1

theorem function_declared : ⟨Symbol.globalScope, f.name, .function⟩ ∈ f.declarations :=
  List.mem_append_left _ List.mem_cons_self

theorem parameter_declared {v : Variable} (hv : v ∈ f.parameters) :
    ⟨f.name, v.name, .parameter⟩ ∈ f.declarations :=
  List.mem_append_left _ (List.mem_cons_of_mem _ (List.mem_map.mpr ⟨v, hv, rfl⟩))

theorem local_declared {v : Variable} (hv : v ∈ f.locals) :
    ⟨f.name, v.name, .var⟩ ∈ f.declarations :=
  List.mem_append_right _ (List.mem_map.mpr ⟨v, hv, rfl⟩)

theorem WellFormed.callee_declared (h : WellFormed fs) (hfs : fs = before ++ f :: after)
    {c : String} (hc : c ∈ Core.callees before) : IsName c ∧
      ⟨Symbol.globalScope, c, .function⟩ ∈
        libraryDeclarations ++ before.flatMap (·.declarations) := by
  rcases List.mem_append.mp hc with hc | hc
  · obtain ⟨hc, hname⟩ := List.mem_filter.mp hc
    exact ⟨of_decide_eq_true hname, List.mem_append_left _ (library_functions c hc)⟩
  · obtain ⟨g, hg, rfl⟩ := List.mem_map.mp hc
    obtain ⟨hg, hentry⟩ := List.mem_filter.mp hg
    have hname := (h.names g (by simp [hfs, hg])).resolve_left (by simpa using hentry)
    exact ⟨hname.1, List.mem_append_right _ (List.mem_flatMap.mpr ⟨g, hg, function_declared⟩)⟩

theorem WellFormed.offers (h : WellFormed fs) (hfs : fs = before ++ f :: after) (scope : String) :
    Offers (f.place (Place.behind before scope)) (f.vars.map (·.name))
      (if f.isEntry then Core.callees before else f.name :: Core.callees before) := by
  have hf := h.functions before f after hfs
  have hdistinct := List.nodup_cons.mp hf.distinct
  constructor
  · intro name hname
    obtain ⟨v, hv, rfl⟩ := List.mem_map.mp hname
    refine ⟨hf.names v hv, fun hself => hdistinct.1 (List.mem_map.mpr ⟨v, hv, hself⟩), ?_⟩
    rcases List.mem_append.mp hv with hv | hv
    · exact ⟨.parameter, Or.inr rfl, List.mem_append_right _ (parameter_declared hv)⟩
    · exact ⟨.var, Or.inl rfl, List.mem_append_right _ (local_declared hv)⟩
  · have hbehind : ∀ c ∈ Core.callees before, IsName c ∧
        ⟨Symbol.globalScope, c, .function⟩ ∈ (f.place (Place.behind before scope)).declared :=
      fun c hc => (h.callee_declared hfs hc).imp_right (List.mem_append_left _)
    intro c hc
    by_cases hentry : f.isEntry
    · rw [if_pos hentry] at hc
      exact hbehind c hc
    · rw [if_neg hentry] at hc
      rcases List.mem_cons.mp hc with rfl | hc
      · have hname := (h.names f (by simp [hfs])).resolve_left hentry
        exact ⟨hname.1, List.mem_append_right _ function_declared⟩
      · exact hbehind c hc

/-- The header of a function is read behind the functions before it. -/
theorem WellFormed.readable_header (h : WellFormed fs) (hfs : fs = before ++ f :: after)
    (hlimit : 0 < limit) (scope : String)
    (hrest : Readable limit { f.place (.behind before scope) with nest := 1 } rest q) :
    Readable limit (.behind before scope) (f.header ++ rest) q := by
  have hmem : f ∈ fs := by simp [hfs]
  have hword := Function.names_nameWord ((h.names f hmem).imp_right And.left)
    (h.entryType f hmem)
  exact Function.readable_header rfl (h.functions before f after hfs).type hword
    (h.new (p := ⟨[], scope, 0⟩) hfs (Or.inl ⟨rfl, rfl⟩)) (h.declarable hfs scope) hlimit hrest

/-- Functions are read behind those before them. -/
theorem WellFormed.readable_functions (h : WellFormed fs) (hlimit : 0 < limit) (scope : String)
    {between : List Function} (hfs : fs = before ++ between ++ after)
    (hdepth : ∀ f ∈ between, ∀ s ∈ f.body, s.expression.depth < limit) :
    ∃ scope', ∀ rest q, Readable limit (.behind (before ++ between) scope') rest q →
      Readable limit (.behind before scope) (words between ++ rest) q := by
  induction between generalizing before scope with
  | nil => exact ⟨scope, fun rest q hrest => by simpa [words] using hrest⟩
  | cons f between ih =>
    have hsplit : fs = before ++ f :: (between ++ after) := by simpa using hfs
    obtain ⟨hf, hdepth⟩ := List.forall_mem_cons.mp hdepth
    obtain ⟨scope', hbetween⟩ := @ih (before ++ [f]) f.name (by simpa using hfs) hdepth
    refine ⟨scope', fun rest q hrest => ?_⟩
    have hplace : f.place (.behind before scope) = .behind (before ++ [f]) f.name := by
      simp [Function.place, Place.behind]
    rw [words, List.flatMap_cons, List.append_assoc, Function.words, List.append_assoc,
      List.append_assoc]
    refine h.readable_header hsplit hlimit scope ?_
    refine Function.readable_statements rfl (h.offers hsplit scope).nest
      (h.functions before f _ hsplit).uses rfl hf ?_
    refine Readable.closing (k := .closeBrace) ?_ (Or.inl rfl)
    exact hplace ▸ hbetween rest q (by simpa using hrest)

/-- The functions from one on are read. -/
theorem WellFormed.readable (h : WellFormed fs) (hlimit : 0 < limit)
    (hdepth : ∀ f ∈ fs, ∀ s ∈ f.body, s.expression.depth < limit) (scope : String)
    (hfs : fs = before ++ after) :
    ∃ scope', Readable limit (.behind before scope) (words after) (.behind fs scope') := by
  have hbetween : fs = before ++ after ++ [] := by simpa using hfs
  obtain ⟨scope', hall⟩ := h.readable_functions hlimit scope hbetween
    fun f hf => hdepth f (by simp [hfs, hf])
  exact ⟨scope', by simpa using hall [] _ (hfs ▸ .done)⟩

end

end Ttm.Core
