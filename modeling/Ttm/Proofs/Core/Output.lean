import Ttm.Proofs.Core.Syntax

/-! What a program is written as once each of its expressions has a structure. -/
namespace Ttm.Core

open Lexeme (Kind)
open Postfix (Level Tree Role)

/-- A structure for the expression of each statement, by the function it stands in. -/
abbrev Structures := String → Statement → Tree Word .list

variable (trees : Structures)

def Statement.output (scope : String) (s : Statement) : List Word :=
  s.lead scope ++ (trees scope s).tokens ++ [semicolon]

def Function.output (f : Function) : List Word :=
  f.header ++ f.body.flatMap (·.output trees f.name) ++ [.mark .closeBrace]

def output (fs : List Function) : List Word := fs.flatMap (·.output trees)

/-- The expression of a statement with its signs written out. -/
def Statement.written (scope : String) (s : Statement) : List Word :=
  Signs.rewrite ⟨false, s.allowsSign⟩ (s.expression.words scope)

/-- The structure of a statement is that of its expression with the signs written out. -/
structure Structured (scope : String) (s : Statement) : Prop where
  proper : (trees scope s).Proper Word.role
  reads : Signs.Reads ⟨false, s.allowsSign⟩ (s.expression.words scope) (trees scope s).tokens
    Signs.quiet

/-- Every statement is structured. -/
def WellStructured (fs : List Function) : Prop :=
  ∀ f ∈ fs, ∀ s ∈ f.body, Structured trees f.name s

variable {trees} {scope : String} {f : Function} {fs : List Function} {w : Word}
  {ws xs ys : List Word}

namespace Signs

theorem reads_of_no_minus (allowed : Bool) (h : ∀ w ∈ ws, w ≠ Expr.minus) :
    ∃ allowed', Reads ⟨false, allowed⟩ ws ws ⟨false, allowed'⟩ := by
  induction ws generalizing allowed with
  | nil => exact ⟨allowed, rfl, rfl⟩
  | cons w ws ih =>
    obtain ⟨allowed', hws⟩ := ih w.expectsOperand fun x hx => h x (List.mem_cons_of_mem w hx)
    exact ⟨allowed', (reads_of_not_minus (Or.inl (h w List.mem_cons_self))).cons hws⟩

theorem reads_quiet (allowed : Bool) (hw : w ≠ Expr.minus) (hquiet : w.expectsOperand = false) :
    Reads ⟨false, allowed⟩ [w] [w] quiet := by
  have h := @reads_of_not_minus w allowed (Or.inl hw)
  rwa [hquiet] at h

theorem reads_flatMap {α : Type} {f g : α → List Word} {as : List α}
    (h : ∀ a ∈ as, quiet.Reads (f a) (g a) quiet) :
    quiet.Reads (as.flatMap f) (as.flatMap g) quiet := by
  induction as with
  | nil => exact ⟨rfl, rfl⟩
  | cons a as ih =>
    rw [List.flatMap_cons, List.flatMap_cons]
    exact (h a List.mem_cons_self).append (ih fun x hx => h x (List.mem_cons_of_mem a hx))

end Signs

variable {s : Statement}

theorem reads_lead : Signs.quiet.Reads (s.lead scope) (s.lead scope) ⟨false, s.allowsSign⟩ := by
  have hmark (k : Kind) (hk : (k == .minus) = false) :
      Signs.quiet.Reads [.mark k] [.mark k] ⟨false, (Word.mark k).expectsOperand⟩ :=
    Signs.reads_of_not_minus (Or.inr rfl)
  cases s with
  | assign name e =>
    have hvar : Signs.quiet.Reads [.var scope name] [.var scope name] Signs.quiet :=
      Signs.reads_of_not_minus (Or.inr rfl)
    exact hvar.cons (hmark .assign rfl)
  | ret e => exact hmark .retWord rfl
  | echo e => exact hmark .echoWord rfl
  | callNone | call => exact ⟨rfl, rfl⟩

theorem Structured.tokens_eq (h : Structured trees scope s) :
    (trees scope s).tokens = s.written scope := h.reads.1.symm

theorem Structured.reads_statement (h : Structured trees scope s) :
    Signs.quiet.Reads (s.words scope) (s.output trees scope) Signs.quiet := by
  have hsemicolon : Signs.quiet.Reads [semicolon] [semicolon] Signs.quiet :=
    Signs.reads_of_not_minus (Or.inr rfl)
  exact (reads_lead.append h.reads).append hsemicolon

theorem Function.parameterList_kind :
    ∀ w ∈ f.parameterList, w.kind = .datatype ∨ w.kind = .identifier ∨ w.kind = .comma := by
  unfold parameterList
  cases f.parameters with
  | nil => simp
  | cons v vs =>
    simp only [parameterWords, List.mem_append, List.mem_cons, List.not_mem_nil, or_false,
      List.mem_flatMap]
    rintro w ((rfl | rfl) | ⟨x, -, rfl | rfl | rfl⟩) <;> simp [Word.kind, Expr.comma]

theorem Function.kind_nameWord : f.nameWord.kind = .mainWord ∨ f.nameWord.kind = .identifier := by
  unfold nameWord
  split
  · exact Or.inl rfl
  · exact Or.inr rfl

theorem Function.reads_header : Signs.quiet.Reads f.header f.header Signs.quiet := by
  have hstart : ∀ w ∈ [.mark .fnWord, .datatype f.type, f.nameWord, Expr.opening] ++ f.parameterList
      ++ [Expr.closing], w ≠ Expr.minus := by
    rintro w hw rfl
    simp only [List.mem_append, List.mem_cons, List.not_mem_nil, or_false] at hw
    rcases hw with (((hw | hw | hw | hw) | hw) | hw)
    · cases hw
    · cases hw
    · rcases f.kind_nameWord with hname | hname <;> rw [← hw] at hname <;> cases hname
    · cases hw
    · rcases parameterList_kind _ hw with hkind | hkind | hkind <;> cases hkind
    · cases hw
  obtain ⟨allowed, hstart⟩ : ∃ allowed, Signs.quiet.Reads _ _ ⟨false, allowed⟩ :=
    Signs.reads_of_no_minus false hstart
  have hlocals : Signs.quiet.Reads (f.locals.flatMap f.localWords) (f.locals.flatMap f.localWords)
      Signs.quiet := by
    refine Signs.reads_flatMap fun v _ => ?_
    obtain ⟨allowed, hv⟩ := @Signs.reads_of_no_minus
      [.mark .letWord, .datatype v.type, .var f.name v.name] false (by simp [Expr.minus])
    exact hv.append (Signs.reads_quiet allowed (by simp [semicolon, Expr.minus]) rfl)
  have hbrace := Signs.reads_quiet (w := .mark .openBrace) allowed (by simp [Expr.minus]) rfl
  have hall := (hstart.append hbrace).append hlocals
  simpa [header] using hall

theorem Function.reads (h : ∀ s ∈ f.body, Structured trees f.name s) :
    Signs.quiet.Reads f.words (f.output trees) Signs.quiet := by
  have hbody := Signs.reads_flatMap fun s hs => (h s hs).reads_statement
  have hbrace := Signs.reads_quiet (w := .mark .closeBrace) false (by simp [Expr.minus]) rfl
  exact (f.reads_header.append hbody).append hbrace

/-- A structured program is written as its structures say. -/
theorem reads_output (h : WellStructured trees fs) :
    Signs.quiet.Reads (words fs) (output trees fs) Signs.quiet :=
  Signs.reads_flatMap fun f hf => f.reads (h f hf)

/-- How many more lexemes of one kind than of another there are. -/
def excess (a b : Kind) (ws : List Word) : Int :=
  (ws.map Word.kind).count a - (ws.map Word.kind).count b

theorem excess_append {a b : Kind} : excess a b (xs ++ ys) = excess a b xs + excess a b ys := by
  simp only [excess, List.map_append, List.count_append]
  omega

theorem excess_cons {a b : Kind} : excess a b (w :: ys) = excess a b [w] + excess a b ys :=
  @excess_append [w] ys a b

theorem excess_eq_zero {a b : Kind} (h : ∀ w ∈ ws, w.kind ≠ a ∧ w.kind ≠ b) :
    excess a b ws = 0 := by
  have hcount (k : Kind) (hk : ∀ w ∈ ws, w.kind ≠ k) : (ws.map Word.kind).count k = 0 := by
    rw [List.count_eq_zero, List.mem_map]
    rintro ⟨w, hw, hkind⟩
    exact hk w hw hkind
  simp [excess, hcount a fun w hw => (h w hw).1, hcount b fun w hw => (h w hw).2]

theorem excess_flatMap {α : Type} {a b : Kind} {f : α → List Word} {as : List α}
    (h : ∀ x ∈ as, excess a b (f x) = 0) : excess a b (as.flatMap f) = 0 := by
  induction as with
  | nil => rfl
  | cons x as ih =>
    rw [List.flatMap_cons, excess_append, h x List.mem_cons_self,
      ih fun y hy => h y (List.mem_cons_of_mem x hy), Int.add_zero]

/-- The brackets of an expression are paired, whichever they are. -/
theorem excess_tokens {a b : Kind} {level : Level} (t : Tree Word level)
    (ht : t.Proper Word.role)
    (hopening : ∀ o c, Word.role o = some .opening → Word.role c = some .closing →
      excess a b [o] + excess a b [c] = 0)
    (hother : ∀ w r, Word.role w = some r → r ≠ .opening → r ≠ .closing → excess a b [w] = 0) :
    excess a b t.tokens = 0 := by
  have hbinary (left right : List Word) (o : Word) (hl : excess a b left = 0)
      (ho : excess a b [o] = 0) (hr : excess a b right = 0) :
      excess a b (left ++ o :: right) = 0 := by
    rw [excess_append, excess_cons, hl, ho, hr]
    rfl
  have hpaired (o c : Word) (inner : List Word) (ho : o.role = some .opening)
      (hi : excess a b inner = 0) (hc : c.role = some .closing) :
      excess a b (o :: inner ++ [c]) = 0 := by
    have hoc := hopening o c ho hc
    rw [List.cons_append, excess_cons, excess_append, hi]
    omega
  induction t with
  | operand o => exact hother o _ ht (by decide) (by decide)
  | group opening inner closing ih => exact hpaired _ _ _ ht.1 (ih ht.2.1) ht.2.2
  | callNone callee opening closing =>
    have hinner := hpaired opening closing [] ht.2.1 rfl ht.2.2
    rw [Tree.tokens, excess_cons, hother callee _ ht.1 (by decide) (by decide), Int.zero_add]
    exact hinner
  | call callee opening arguments closing ih =>
    have hinner := hpaired opening closing _ ht.2.1 (ih ht.2.2.1) ht.2.2.2
    rw [Tree.tokens, List.cons_append, excess_cons,
      hother callee _ ht.1 (by decide) (by decide), Int.zero_add]
    exact hinner
  | ofFactor t ih | ofProduct t ih | ofSum t ih => exact ih ht
  | multiply left operator right ihl ihr =>
    exact hbinary _ _ _ (ihl ht.1) (hother _ _ ht.2.1 (by decide) (by decide)) (ihr ht.2.2)
  | add left operator right ihl ihr =>
    exact hbinary _ _ _ (ihl ht.1) (hother _ _ ht.2.1 (by decide) (by decide)) (ihr ht.2.2)
  | append left comma right ihl ihr =>
    exact hbinary _ _ _ (ihl ht.1) (hother _ _ ht.2.1 (by decide) (by decide)) (ihr ht.2.2)

theorem kind_of_role {r : Role} (h : w.role = some r) :
    Postfix.roleOf w.kind = some r ∨ r = .callee ∧ w.kind = .identifier := by
  cases w with
  | mark k =>
    refine Or.inl ?_
    cases k <;> first | exact h | cases h
  | var | integer | text => exact Or.inl h
  | callee =>
    cases h
    exact Or.inr ⟨rfl, rfl⟩
  | _ => cases h

theorem kind_opening (h : w.role = some .opening) : w.kind = .openParen := by
  rcases kind_of_role h with h | ⟨h, -⟩
  · cases hk : w.kind <;> rw [hk] at h <;> first | rfl | cases h
  · cases h

theorem kind_closing (h : w.role = some .closing) : w.kind = .closeParen := by
  rcases kind_of_role h with h | ⟨h, -⟩
  · cases hk : w.kind <;> rw [hk] at h <;> first | rfl | cases h
  · cases h

theorem excess_parens_tokens {level : Level} {t : Tree Word level} (ht : t.Proper Word.role) :
    excess .openParen .closeParen t.tokens = 0 := by
  refine excess_tokens t ht (fun o c ho hc => ?_) fun w r hr ho hc => ?_
  · simp [excess, kind_opening ho, kind_closing hc]
  · refine excess_eq_zero fun x hx => ?_
    obtain rfl := List.mem_singleton.mp hx
    rcases kind_of_role hr with h | ⟨-, h⟩
    · constructor <;> intro hk <;> rw [hk] at h <;> cases h <;> contradiction
    · simp [h]

theorem excess_braces_tokens {level : Level} {t : Tree Word level} (ht : t.Proper Word.role) :
    excess .openBrace .closeBrace t.tokens = 0 := by
  have hrole (w : Word) (r : Role) (hr : w.role = some r) :
      excess .openBrace .closeBrace [w] = 0 := by
    refine excess_eq_zero fun x hx => ?_
    obtain rfl := List.mem_singleton.mp hx
    rcases kind_of_role hr with h | ⟨-, h⟩
    · constructor <;> intro hk <;> rw [hk] at h <;> cases h
    · simp [h]
  refine excess_tokens t ht (fun o c ho hc => ?_) fun w r hr _ _ => hrole w r hr
  rw [hrole o _ ho, hrole c _ hc]
  rfl

/-- Brackets of neither form stand in front of an expression. -/
theorem kind_lead (hw : w ∈ s.lead scope) :
    w.kind = .identifier ∨ w.kind = .assign ∨ w.kind = .retWord ∨ w.kind = .echoWord := by
  cases s with
  | assign name e =>
    rcases List.mem_cons.mp hw with rfl | hw
    · exact Or.inl rfl
    · obtain rfl := List.mem_singleton.mp hw
      exact Or.inr (Or.inl rfl)
  | ret e =>
    obtain rfl := List.mem_singleton.mp hw
    exact Or.inr (Or.inr (Or.inl rfl))
  | echo e =>
    obtain rfl := List.mem_singleton.mp hw
    exact Or.inr (Or.inr (Or.inr rfl))
  | callNone | call => cases hw

theorem excess_statement {a b : Kind}
    (hab : (a, b) = (.openParen, .closeParen) ∨ (a, b) = (.openBrace, .closeBrace))
    (h : (trees scope s).Proper Word.role) : excess a b (s.output trees scope) = 0 := by
  have htokens : excess a b (trees scope s).tokens = 0 := by
    rcases hab with hab | hab <;> cases hab
    · exact excess_parens_tokens h
    · exact excess_braces_tokens h
  have hlead : excess a b (s.lead scope) = 0 := by
    refine excess_eq_zero fun w hw => ?_
    rcases kind_lead hw with hk | hk | hk | hk <;> rcases hab with hab | hab <;> cases hab <;>
      rw [hk] <;> decide
  have hsemicolon : excess a b [semicolon] = 0 := by
    rcases hab with hab | hab <;> cases hab <;> rfl
  rw [Statement.output, excess_append, excess_append, hlead, htokens, hsemicolon]
  rfl

theorem excess_parameterList {a b : Kind}
    (hab : (a, b) = (.openParen, .closeParen) ∨ (a, b) = (.openBrace, .closeBrace)) :
    excess a b f.parameterList = 0 := by
  refine excess_eq_zero fun w hw => ?_
  rcases Function.parameterList_kind w hw with hk | hk | hk <;> rcases hab with hab | hab <;>
    cases hab <;> rw [hk] <;> decide

theorem excess_locals {a b : Kind}
    (hab : (a, b) = (.openParen, .closeParen) ∨ (a, b) = (.openBrace, .closeBrace)) :
    excess a b (f.locals.flatMap f.localWords) = 0 := by
  refine excess_flatMap fun v _ => ?_
  rcases hab with hab | hab <;> cases hab <;> rfl

/-- Brackets of each form are paired in a structured program. -/
theorem excess_output {a b : Kind}
    (hab : (a, b) = (.openParen, .closeParen) ∨ (a, b) = (.openBrace, .closeBrace))
    (h : WellStructured trees fs) : excess a b (output trees fs) = 0 := by
  refine excess_flatMap fun f hf => ?_
  have hbody : excess a b (f.body.flatMap (·.output trees f.name)) = 0 :=
    excess_flatMap fun s hs => excess_statement hab (h f hf s hs).proper
  have hname : excess a b [f.nameWord] = 0 := by
    refine excess_eq_zero fun w hw => ?_
    obtain rfl := List.mem_singleton.mp hw
    rcases f.kind_nameWord with hk | hk <;> rcases hab with hab | hab <;> cases hab <;>
      rw [hk] <;> decide
  have hsplit : f.output trees = [.mark .fnWord, .datatype f.type] ++ [f.nameWord] ++
      [Expr.opening] ++ f.parameterList ++ [Expr.closing, .mark .openBrace] ++
      f.locals.flatMap f.localWords ++ f.body.flatMap (·.output trees f.name) ++
      [.mark .closeBrace] := by
    simp [Function.output, Function.header]
  rw [hsplit]
  simp only [excess_append, hname, excess_parameterList hab, excess_locals hab, hbody]
  rcases hab with hab | hab <;> cases hab <;> rfl

theorem count_eq_of_excess {a b : Kind} (h : excess a b ws = 0) :
    (ws.map Word.kind).count a = (ws.map Word.kind).count b := by
  unfold excess at h
  omega

theorem mem_output_of_entry (h : ∃ f ∈ fs, f.isEntry) :
    .mainWord ∈ (output trees fs).map Word.kind := by
  obtain ⟨f, hf, hentry⟩ := h
  refine List.mem_map.mpr ⟨.entry, List.mem_flatMap.mpr ⟨f, hf, ?_⟩, rfl⟩
  simp [Function.output, Function.header, Function.nameWord, hentry]

end Ttm.Core
