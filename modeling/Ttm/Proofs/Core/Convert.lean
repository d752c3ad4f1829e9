import Ttm.Proofs.Core.Reorder
import Ttm.Proofs.Postfix.Note

/-! A structured program in postfix order. -/
namespace Ttm.Core

open Lexeme (Kind)
open Postfix (Level Tree Role Pass walk)

variable {limits : Limits} (trees : Structures)

/-- A statement in postfix order, filled up to its length. -/
def Statement.converted (scope : String) (s : Statement) : List Word :=
  s.lead scope ++ (s.code trees scope ++ [semicolon]) ++
    List.replicate ((trees scope s).tokens.length - (trees scope s).postfixOrder.length) .padding

def Function.converted (f : Function) : List Word :=
  f.header ++ f.body.flatMap (·.converted trees f.name) ++ [.mark .closeBrace]

/-- A program with each of its expressions in postfix order. -/
def converted (fs : List Function) : List Word := fs.flatMap (·.converted trees)

variable {trees} {symbols : Symbol.Table} {previous q r : Option Kind}
  {ws xs ys xs' ys' : List Word} {w : Word} {l : Lexeme} {scope : String} {f : Function}

/-- Conversion turns lexemes of `xs` into lexemes of `ys`, whatever comes behind. -/
def Converts [Limits] (symbols : Symbol.Table) (previous : Option Kind) (xs ys : List Word)
    (q : Option Kind) : Prop :=
  ∀ ls, List.Forall₂ (Stands symbols) xs ls → ∃ out, List.Forall₂ (Stands symbols) ys out ∧
    ∀ index p rest, ∃ index' p', p'.done = out.reverseAux p.done ∧
      walk symbols index previous p (ls ++ rest) = walk symbols index' q p' rest

theorem Converts.nil : Converts symbols previous [] [] previous := by
  intro ls hls
  cases hls
  exact ⟨[], .nil, fun index p rest => ⟨index, p, rfl, rfl⟩⟩

theorem Converts.append (hx : Converts symbols previous xs xs' q)
    (hy : Converts symbols q ys ys' r) : Converts symbols previous (xs ++ ys) (xs' ++ ys') r := by
  intro ls hls
  obtain ⟨as, bs, rfl, has, hbs⟩ := forall₂_append_left hls
  obtain ⟨out, hout, hwalk⟩ := hx as has
  obtain ⟨out', hout', hwalk'⟩ := hy bs hbs
  refine ⟨out ++ out', List.rel_append hout hout', fun index p rest => ?_⟩
  obtain ⟨index', p', hdone, h⟩ := hwalk index p (bs ++ rest)
  obtain ⟨index'', p'', hdone', h'⟩ := hwalk' index' p' rest
  refine ⟨index'', p'', ?_, ?_⟩
  · simp [hdone', hdone, List.reverseAux_eq]
  · rw [List.append_assoc, h, h']

/-- A word that conversion leaves as it is. -/
def Stays (previous : Option Kind) (w : Word) : Prop :=
  w.kind ≠ .padding ∧ w.kind ≠ .assign ∧ w.kind ≠ .retWord ∧ w.kind ≠ .echoWord ∧
    (w.kind = .identifier → w.isFunction → Postfix.endsStatement previous = false)

theorem startAt_of_stays (h : Stands symbols w l) (hw : Stays previous w) :
    Postfix.startAt symbols previous l = .none := by
  obtain ⟨-, hassign, hret, hecho, hcall⟩ := hw
  rw [← h.kind] at hassign hret hecho
  have hnot : (Postfix.isCallee symbols l && Postfix.endsStatement previous) = false := by
    rw [isCallee_of_stands h]
    cases hk : w.kind == Kind.identifier
    · rfl
    · cases hf : w.isFunction
      · rfl
      · rw [hcall (beq_iff_eq.mp hk) hf]
        rfl
  unfold Postfix.startAt
  split <;> first | contradiction | rw [hnot]; rfl

theorem Converts.word (hw : Stays previous w) :
    Converts symbols previous [w] [w] (some w.kind) := by
  intro ls hls
  cases hls with
  | @cons _ l _ _ hl hnil =>
  cases hnil
  refine ⟨[l], .cons hl .nil, fun index p rest => ⟨index + 1, p.keep l, rfl, ?_⟩⟩
  have hpadding : l.isPadding = false := by
    rw [Lexeme.isPadding, hl.kind]
    exact beq_eq_false_iff_ne.mpr hw.1
  rw [List.singleton_append, Postfix.walk_keep hpadding (startAt_of_stays hl hw), hl.kind]

theorem Converts.cons (hw : Stays previous w) (h : Converts symbols (some w.kind) ws ys q) :
    Converts symbols previous (w :: ws) (w :: ys) q := (Converts.word hw).append h

/-- Words that never begin a statement stay as they are. -/
theorem Converts.words (h : ∀ w ∈ ws, ∀ previous, Stays previous w) :
    ∃ q, Converts symbols previous ws ws q := by
  induction ws generalizing previous with
  | nil => exact ⟨previous, .nil⟩
  | cons w ws ih =>
    obtain ⟨q, hws⟩ := @ih (some w.kind) fun x hx => h x (List.mem_cons_of_mem w hx)
    exact ⟨q, hws.cons (h w List.mem_cons_self previous)⟩

theorem stands_padding {n : Nat} :
    List.Forall₂ (Stands symbols) (List.replicate n .padding)
      (List.replicate n Lexeme.padding) := by
  induction n with
  | zero => exact .nil
  | succ n ih => exact .cons ⟨rfl, rfl⟩ ih

variable {s : Statement}

theorem done_convert {p : Pass} {line padding : Nat} {reordered : List Lexeme} :
    (p.convert ⟨line, reordered, padding⟩).done =
      (reordered ++ List.replicate padding Lexeme.padding).reverseAux p.done := by
  simp [Pass.convert, List.reverseAux_eq]

theorem startAt_behind {k : Kind} (hk : k = .assign ∨ k = .retWord ∨ k = .echoWord)
    (hl : Stands symbols (.mark k) l) :
    l.isPadding = false ∧ Postfix.startAt symbols previous l = .behind := by
  have hkind : l.kind = k := hl.kind
  rw [Lexeme.isPadding, Postfix.startAt, hkind]
  rcases hk with rfl | rfl | rfl <;> exact ⟨rfl, rfl⟩

theorem startAt_here {callee : String} {arity : Nat} (hprevious : Postfix.endsStatement previous)
    (hl : Stands symbols (.callee callee arity) l) :
    l.isPadding = false ∧ Postfix.startAt symbols previous l = .here := by
  have hkind : l.kind = .identifier := hl.kind
  rw [Lexeme.isPadding, Postfix.startAt, hkind, isCallee_of_stands hl, hprevious]
  exact ⟨rfl, rfl⟩

/-- The expression behind `=`, `ret` or `echo` is put into postfix order. -/
theorem Converts.behind {k : Kind} (hk : k = .assign ∨ k = .retWord ∨ k = .echoWord)
    (hs : (trees scope s).Proper Word.role)
    (hlength : (trees scope s).tokens.length + 1 ≤ Limits.maxStatementLength) :
    Converts symbols previous (.mark k :: ((trees scope s).tokens ++ [semicolon]))
      (.mark k :: (s.code trees scope ++ [semicolon] ++ List.replicate
        ((trees scope s).tokens.length - (trees scope s).postfixOrder.length) .padding))
      (some .semicolon) := by
  intro ls hls
  cases hls with
  | @cons _ l _ ls hl hls =>
  obtain ⟨hpadding, hstart⟩ := @startAt_behind symbols previous l k hk hl
  obtain ⟨reordered, hreordered, hcount, hconvert⟩ := convertFirst_of_stands hs hlength hls
  refine ⟨l :: (reordered ++ List.replicate (ls.length - reordered.length) Lexeme.padding),
    .cons hl (List.rel_append hreordered (hcount ▸ stands_padding)), fun index p rest => ?_⟩
  rw [List.cons_append, Postfix.walk_behind hpadding hstart, hconvert (index + 1) rest]
  exact ⟨_, _, done_convert, rfl⟩

/-- A statement that is a call is put into postfix order. -/
theorem Converts.here {callee : String} {arity : Nat} {more : List Word}
    (hprevious : Postfix.endsStatement previous)
    (htokens : (trees scope s).tokens = .callee callee arity :: more)
    (hs : (trees scope s).Proper Word.role)
    (hlength : (trees scope s).tokens.length + 1 ≤ Limits.maxStatementLength) :
    Converts symbols previous ((trees scope s).tokens ++ [semicolon])
      (s.code trees scope ++ [semicolon] ++ List.replicate
        ((trees scope s).tokens.length - (trees scope s).postfixOrder.length) .padding)
      (some .semicolon) := by
  intro ls hls
  obtain ⟨reordered, hreordered, hcount, hconvert⟩ := convertFirst_of_stands hs hlength hls
  rw [htokens] at hls
  cases hls with
  | @cons _ l _ ls hl hls =>
  obtain ⟨hpadding, hstart⟩ := startAt_here hprevious hl
  refine ⟨reordered ++ List.replicate ((l :: ls).length - reordered.length) Lexeme.padding,
    List.rel_append hreordered (hcount ▸ stands_padding), fun index p rest => ?_⟩
  rw [List.cons_append, Postfix.walk_here hpadding hstart, ← List.cons_append,
    hconvert index rest]
  exact ⟨_, _, done_convert, rfl⟩

theorem stays_var {name : String} : Stays previous (.var scope name) := by
  simp [Stays, Word.kind, Word.isFunction]

/-- A call that is a statement begins with its callee, whatever signs there are. -/
theorem Statement.written_of_callee {callee : String} {arity : Nat} {more : List Word}
    (hwords : s.expression.words scope = .callee callee arity :: more) :
    ∃ more, s.written scope = .callee callee arity :: more := by
  have hcallee : Signs.written ⟨false, s.allowsSign⟩ (.callee callee arity) =
      [.callee callee arity] := by
    simp [Signs.written, Expr.minus]
  rw [written, hwords, Signs.rewrite, hcallee]
  exact ⟨_, rfl⟩

theorem Structured.converts (h : Structured trees scope s)
    (hprevious : Postfix.endsStatement previous)
    (hlength : (s.written scope).length + 1 ≤ Limits.maxStatementLength) :
    Converts symbols previous (s.output trees scope) (s.converted trees scope)
      (some .semicolon) := by
  rw [← h.tokens_eq] at hlength
  rw [Statement.output, Statement.converted, List.append_assoc, List.append_assoc]
  cases s with
  | assign name e =>
    exact .cons stays_var (.behind (Or.inl rfl) h.proper hlength)
  | ret e => exact .behind (Or.inr (Or.inl rfl)) h.proper hlength
  | echo e => exact .behind (Or.inr (Or.inr rfl)) h.proper hlength
  | callNone callee =>
    obtain ⟨more, hwritten⟩ := Statement.written_of_callee (s := .callNone callee) rfl
    exact .here hprevious (h.tokens_eq.trans hwritten) h.proper hlength
  | call callee arguments =>
    obtain ⟨more, hwritten⟩ := Statement.written_of_callee (s := .call callee arguments) rfl
    exact .here hprevious (h.tokens_eq.trans hwritten) h.proper hlength

theorem stays_of_kind (hk : w.kind = .fnWord ∨ w.kind = .letWord ∨ w.kind = .datatype ∨
      w.kind = .comma ∨ w.kind = .openParen ∨ w.kind = .closeParen ∨ w.kind = .openBrace ∨
      w.kind = .closeBrace ∨ w.kind = .semicolon ∨ w.kind = .mainWord) : Stays previous w := by
  rcases hk with hk | hk | hk | hk | hk | hk | hk | hk | hk | hk <;> simp [Stays, hk]

theorem stays_nameWord : Stays (some .datatype) f.nameWord := by
  rcases f.kind_nameWord with hk | hk <;> simp [Stays, hk, Postfix.endsStatement]

theorem stays_parameterList : ∀ w ∈ f.parameterList, ∀ previous, Stays previous w := by
  intro w hw previous
  unfold Function.parameterList at hw
  cases hps : f.parameters with
  | nil => simp [hps] at hw
  | cons v vs =>
    simp only [hps, Function.parameterWords, List.mem_append, List.mem_cons, List.not_mem_nil,
      or_false, List.mem_flatMap] at hw
    rcases hw with (rfl | rfl) | ⟨x, -, rfl | rfl | rfl⟩
    · exact stays_of_kind (by simp [Word.kind])
    · exact stays_var
    · exact stays_of_kind (by simp [Word.kind, Expr.comma])
    · exact stays_of_kind (by simp [Word.kind])
    · exact stays_var

theorem converts_locals {vs : List Variable} (hprevious : Postfix.endsStatement previous) :
    ∃ q, Postfix.endsStatement q ∧
      Converts symbols previous (vs.flatMap f.localWords) (vs.flatMap f.localWords) q := by
  induction vs generalizing previous with
  | nil => exact ⟨previous, hprevious, .nil⟩
  | cons v vs ih =>
    obtain ⟨q, hq, hvs⟩ := @ih (some .semicolon) rfl
    refine ⟨q, hq, ?_⟩
    refine .cons (stays_of_kind (by simp [Word.kind])) ?_
    refine .cons (stays_of_kind (by simp [Word.kind])) ?_
    exact .cons stays_var (.cons (stays_of_kind (by simp [Word.kind, semicolon])) hvs)

theorem Function.converts_header : ∃ q, Postfix.endsStatement q ∧
    Converts symbols previous f.header f.header q := by
  obtain ⟨q, hparameters⟩ :=
    @Converts.words limits symbols (some .openParen) f.parameterList stays_parameterList
  obtain ⟨r, hr, hlocals⟩ := @converts_locals limits symbols (some .openBrace) f f.locals rfl
  refine ⟨r, hr, ?_⟩
  rw [header, List.append_assoc, List.append_assoc]
  refine .cons (stays_of_kind (by simp [Word.kind])) ?_
  refine .cons (stays_of_kind (by simp [Word.kind])) ?_
  refine .cons stays_nameWord (.cons (stays_of_kind (by simp [Word.kind, Expr.opening])) ?_)
  refine hparameters.append (.cons (stays_of_kind (by simp [Word.kind, Expr.closing])) ?_)
  exact .cons (stays_of_kind (by simp [Word.kind])) hlocals

/-- No statement is too long to be put into postfix order. -/
def Short [Limits] (fs : List Function) : Prop :=
  ∀ f ∈ fs, ∀ s ∈ f.body, (s.written f.name).length + 1 ≤ Limits.maxStatementLength

instance [Limits] (fs : List Function) : Decidable (Short fs) :=
  inferInstanceAs (Decidable (∀ f ∈ fs, ∀ s ∈ f.body, _ ≤ _))

theorem converts_statements {body : List Statement} (h : ∀ s ∈ body, Structured trees scope s)
    (hlength : ∀ s ∈ body, (s.written scope).length + 1 ≤ Limits.maxStatementLength)
    (hprevious : Postfix.endsStatement previous) :
    ∃ q, Converts symbols previous (body.flatMap (·.output trees scope))
      (body.flatMap (·.converted trees scope)) q := by
  induction body generalizing previous with
  | nil => exact ⟨previous, .nil⟩
  | cons s body ih =>
    obtain ⟨q, hbody⟩ := @ih (some .semicolon) (fun x hx => h x (List.mem_cons_of_mem s hx))
      (fun x hx => hlength x (List.mem_cons_of_mem s hx)) rfl
    have hs : Converts symbols previous (s.output trees scope) (s.converted trees scope)
        (some .semicolon) :=
      (h s List.mem_cons_self).converts hprevious (hlength s List.mem_cons_self)
    exact ⟨q, hs.append hbody⟩

theorem Function.converts (h : ∀ s ∈ f.body, Structured trees f.name s)
    (hshort : ∀ s ∈ f.body,
      (s.written f.name).length + 1 ≤ Limits.maxStatementLength) :
    Converts symbols previous (f.output trees) (f.converted trees) (some .closeBrace) := by
  obtain ⟨q, hq, hheader⟩ := @Function.converts_header limits symbols previous f
  obtain ⟨r, hbody⟩ := @converts_statements limits trees symbols q f.name f.body h hshort hq
  have hbrace : Converts symbols r [.mark .closeBrace] [.mark .closeBrace] (some .closeBrace) :=
    .word (stays_of_kind (by simp [Word.kind]))
  exact (hheader.append hbody).append hbrace

variable {fs : List Function}

theorem converts_output (h : WellStructured trees fs) (hshort : Short fs) :
    ∃ q, Converts symbols previous (output trees fs) (converted trees fs) q := by
  induction fs generalizing previous with
  | nil => exact ⟨previous, .nil⟩
  | cons f fs ih =>
    obtain ⟨q, hrest⟩ := @ih (some .closeBrace) (fun g hg => h g (List.mem_cons_of_mem f hg))
      (fun g hg => hshort g (List.mem_cons_of_mem f hg))
    have hf : Converts symbols previous (f.output trees) (f.converted trees) (some .closeBrace) :=
      f.converts (h f List.mem_cons_self) (hshort f List.mem_cons_self)
    exact ⟨q, hf.append hrest⟩

/-- Conversion of a structured program is accepted, and puts it into postfix order. -/
theorem convertAll_output {settings : ConversionSettings} {lexemes : Lexeme.Table}
    (h : WellStructured trees fs)
    (hshort : Short fs)
    (hstands : List.Forall₂ (Stands symbols) (output trees fs) lexemes.toList) :
    (∃ metrics, (Postfix.convertAll symbols settings lexemes).result = .ok metrics) ∧
      List.Forall₂ (Stands symbols) (converted trees fs)
        (Postfix.convertAll symbols settings lexemes).lexemes.toList := by
  obtain ⟨q, hconverts⟩ := @converts_output limits trees symbols none fs h hshort
  obtain ⟨out, hout, hwalk⟩ := hconverts lexemes.toList hstands
  obtain ⟨index, p, hdone, hwalk⟩ := hwalk 0 { settings } []
  rw [List.append_nil, walk] at hwalk
  unfold Postfix.convertAll
  rw [hwalk]
  refine ⟨⟨_, rfl⟩, ?_⟩
  have hdone : p.done.reverse = out := by
    rw [hdone, List.reverseAux_eq, List.append_nil, List.reverse_reverse]
  rw [Lexeme.Table.toList]
  simpa only [hdone] using hout

end Ttm.Core
