import Mathlib.Data.List.Forall2
import Ttm.Proofs.Source.Lines

/-!
Line endings. A carriage return in front of a newline is dropped, or ends up at the end of a string
that is left open, which is no lexeme with it or without.
-/
namespace Ttm.Source

open Lexeme (Kind)

/-- The source with a carriage return in front of each newline. -/
def withReturns (source : List UInt8) : List UInt8 :=
  source.flatMap fun b => if b = Byte.newline then [0x0D, Byte.newline] else [b]

/-- Tokens on one line with one text, or with two texts that are no lexemes. -/
structure Token.Alike [Limits] (token token' : Token) : Prop where
  line : token.line = token'.line
  text : token.text = token'.text ∨
    Kind.ofText? token.text = none ∧ Kind.ofText? token'.text = none

namespace Delimited

/-- Delimited text, and the same with returns at the end of strings that are left open. -/
inductive Twin : List UInt8 → List UInt8 → Prop
  | nil : Twin [] []
  | segment {content written written' : List UInt8} (hdelimiter : Byte.delimiter ∉ content)
      (h : Twin written written') :
    Twin (Byte.delimiter :: (content ++ written)) (Byte.delimiter :: (content ++ written'))
  | broken {content written written' : List UInt8} (hquote : Byte.quote ∉ content)
      (hdelimiter : Byte.delimiter ∉ content) (h : Twin written written') :
    Twin (Byte.delimiter :: (content ++ Byte.quote :: written))
      (Byte.delimiter :: 0x0D :: (content ++ Byte.quote :: written'))

/-- The last segment is the same, behind twins. -/
def Beside (written written' : List UInt8) : Prop :=
  ∃ content before before', written = content ++ before ∧ written' = content ++ before' ∧
    Byte.delimiter ∉ content ∧ Twin before before'

variable {limits : Limits} {maxString : Nat} {b : UInt8} {next : Option UInt8} {mode mode' : Mode}
  {source rest written written' content content' before before' : List UInt8} {d d' e : Draft}
  {p : UInt8 → Bool} {f : List UInt8 → List UInt8} {result : Except Error Mode}

theorem Twin.isClosed (h : Twin written written') :
    Token.Closed written ∧ Token.Closed written' := by
  cases h <;> simp [Token.Closed]

theorem Twin.beside (h : Twin written written') : Beside written written' :=
  ⟨[], written, written', rfl, rfl, List.not_mem_nil, h⟩

theorem Beside.cons (h : Beside written written') (hb : b ≠ Byte.delimiter) :
    Beside (b :: written) (b :: written') := by
  obtain ⟨content, before, before', rfl, rfl, hcontent, htwin⟩ := h
  exact ⟨b :: content, before, before', rfl, rfl,
    List.not_mem_cons_of_ne_of_not_mem hb.symm hcontent, htwin⟩

theorem Beside.closed (h : Beside written written') : Twin (closed written) (closed written') := by
  obtain ⟨content, before, before', rfl, rfl, hcontent, htwin⟩ := h
  by_cases hne : content = []
  · subst hne
    rwa [List.nil_append, List.nil_append, closed_eq_self htwin.isClosed.1,
      closed_eq_self htwin.isClosed.2]
  · rw [closed_append hne hcontent, closed_append hne hcontent]
    exact .segment hcontent htwin

theorem Beside.head? (h : Beside written written') : written.head? = written'.head? := by
  obtain ⟨content, before, before', rfl, rfl, -, htwin⟩ := h
  cases content with
  | nil => cases htwin <;> rfl
  | cons => rfl

theorem Beside.joined (h : Beside written written') :
    Beside (joined p written) (joined p written') := by
  unfold Delimited.joined
  rw [h.head?]
  split
  · exact h
  · exact h.closed.beside

/-- What a byte does to a text it does to the other. -/
theorem Beside.wrote (h : Beside written written') (hf : Wrote b mode mode' f) :
    Beside (f written) (f written') := by
  cases hf with
  | kept => exact h
  | cut => exact h.closed.beside
  | newline => exact h.closed.beside.cons (by decide)
  | written p hline hdelimiter => exact h.joined.cons hdelimiter
  | separated hline hdelimiter =>
    have hsingle : Byte.delimiter ∉ [b] := by simpa using hdelimiter.symm
    exact (Twin.segment hsingle h.closed).beside
  | quoted hline hdelimiter => exact h.cons hdelimiter

/-- There is one way to cut off the last segment. -/
theorem eq_of_append_eq (h : content ++ before = content' ++ before')
    (hcontent : Byte.delimiter ∉ content) (hcontent' : Byte.delimiter ∉ content')
    (hbefore : Token.Closed before) (hbefore' : Token.Closed before') :
    content = content' ∧ before = before' := by
  induction content generalizing content' with
  | nil =>
    cases content' with
    | nil => exact ⟨rfl, h⟩
    | cons last content' =>
      have hlast : last = Byte.delimiter := hbefore last (by rw [← List.nil_append before, h]; rfl)
      exact absurd (hlast ▸ List.mem_cons_self) hcontent'
  | cons last content ih =>
    cases content' with
    | nil =>
      have hlast : last = Byte.delimiter :=
        hbefore' last (by rw [← List.nil_append before', ← h]; rfl)
      exact absurd (hlast ▸ List.mem_cons_self) hcontent
    | cons last' content' =>
      obtain ⟨rfl, htail⟩ := List.cons.inj h
      obtain ⟨rfl, rfl⟩ := ih htail (List.not_mem_of_not_mem_cons hcontent)
        (List.not_mem_of_not_mem_cons hcontent')
      exact ⟨rfl, rfl⟩

/-- A return at the end of an open string. -/
theorem Beside.broken (h : Beside written written') (hopen : Open written) :
    Twin (Delimited.closed written) (Delimited.closed (0x0D :: written')) := by
  obtain ⟨content, before, hwritten, hquote, hdelimiter, hbefore⟩ := hopen
  obtain ⟨current, before₁, before', rfl, rfl, hcurrent, htwin⟩ := h
  have hcontent : Byte.delimiter ∉ content ++ [Byte.quote] := by
    simpa [hdelimiter] using (by decide : Byte.delimiter ≠ Byte.quote)
  have hsplit : current ++ before₁ = (content ++ [Byte.quote]) ++ before := by
    rw [hwritten, List.append_assoc, List.singleton_append]
  obtain ⟨rfl, rfl⟩ := eq_of_append_eq hsplit hcurrent hcontent htwin.isClosed.1 hbefore
  have hreturn : Byte.delimiter ∉ 0x0D :: (content ++ [Byte.quote]) :=
    List.not_mem_cons_of_ne_of_not_mem (by decide) hcontent
  have hclosed := @closed_append before' _ (List.cons_ne_nil _ _) hreturn
  rw [List.cons_append] at hclosed
  rw [closed_append (by simp) hcontent, hclosed, List.append_assoc, List.append_assoc]
  exact .broken hquote hdelimiter htwin

/-- Twins have as many quotes, and tokens that are alike. -/
theorem Twin.tokens (h : Twin written written') :
    (Token.ofWritten written).2 = (Token.ofWritten written').2 ∧
      List.Forall₂ Token.Alike (Token.ofWritten written).1 (Token.ofWritten written').1 ∧
        written.count Byte.quote = written'.count Byte.quote := by
  induction h with
  | nil => exact ⟨rfl, .nil, rfl⟩
  | @segment content written written' hdelimiter h ih =>
    obtain ⟨hline, htokens, hcount⟩ := ih
    have hcontent : Byte.delimiter ∉ content.reverse := by simpa using hdelimiter
    have hof := Token.ofWritten_append h.isClosed.1 hcontent
    have hof' := Token.ofWritten_append h.isClosed.2 hcontent
    rw [List.reverse_reverse] at hof hof'
    rw [Token.ofWritten_delimiter, Token.ofWritten_delimiter, hof, hof']
    have hcounts : (Byte.delimiter :: (content ++ written)).count Byte.quote =
        (Byte.delimiter :: (content ++ written')).count Byte.quote := by
      rw [List.count_cons, List.count_cons, List.count_append, List.count_append, hcount]
    unfold Token.collect
    split
    · exact ⟨congrArg (· + _) hline, htokens, hcounts⟩
    · exact ⟨hline, .cons ⟨hline, Or.inl rfl⟩ htokens, hcounts⟩
  | @broken content written written' hquote hdelimiter h ih =>
    obtain ⟨hline, htokens, hcount⟩ := ih
    have hreturn : Byte.delimiter ∉ 0x0D :: content :=
      List.not_mem_cons_of_ne_of_not_mem (by decide) hdelimiter
    have hof' := ofWritten_open hreturn h.isClosed.2
    rw [List.cons_append] at hof'
    rw [Token.ofWritten_delimiter, Token.ofWritten_delimiter,
      ofWritten_open hdelimiter h.isClosed.1, hof']
    refine ⟨hline, .cons ⟨hline, Or.inr ⟨?_, ?_⟩⟩ htokens, ?_⟩
    · exact ofText?_unclosed (by simpa using hquote)
    · refine ofText?_unclosed ?_
      simpa [hquote] using (by decide : Byte.quote ≠ 0x0D)
    · have hne : (0x0D : UInt8) ≠ Byte.quote := by decide
      simp [List.count_cons, hcount, hne]

theorem Beside.tokens (h : Beside written written') :
    List.Forall₂ Token.Alike (Token.ofWritten written).1 (Token.ofWritten written').1 ∧
      written.count Byte.quote = written'.count Byte.quote := by
  obtain ⟨-, htokens, hcount⟩ := h.closed.tokens
  rw [ofWritten_closed, ofWritten_closed] at htokens
  rw [count_closed, count_closed] at hcount
  exact ⟨htokens, hcount⟩

theorem Began.step (h : Began maxString mode d.written)
    (hstep : step .standard maxString mode b next d = (.ok mode', d')) :
    Began maxString mode' d'.written := by
  cases mode with
  | plain => exact (writes_of_plainStep hstep).began
  | comment =>
    simp only [Delimited.step] at hstep
    split at hstep <;> cases hstep <;> trivial
  | quoted held =>
    cases step_quoted_iff.mp hstep with
    | outside _ hplain => exact (writes_of_plainStep hplain).began
    | closing => trivial
    | content _ hdelimiter hquote hroom => exact ⟨hroom, h.2.join hquote hdelimiter⟩

/-- From drafts side by side a byte is read alike, and refused at the same place. -/
theorem step_beside (hplace : d.place = d'.place) (hwritten : Beside d.written d'.written)
    (hstep : step .standard maxString mode b next d = (result, e)) :
    ∃ e', step .standard maxString mode b next d' = (result, e') ∧
      ∀ mode', result = .ok mode' → e.place = e'.place ∧ Beside e.written e'.written := by
  cases result with
  | ok mode' =>
    obtain ⟨f, hf, he, hsteps⟩ := wrote_of_step hstep
    obtain ⟨e', hstep', he'⟩ := hsteps d'
    refine ⟨e', hstep', fun _ _ => ⟨?_, ?_⟩⟩
    · rw [place_of_step hstep, place_of_step hstep', hplace]
    · rw [he, he']
      exact hwritten.wrote hf
  | error cause =>
    cases hstep' : step .standard maxString mode b next d' with
    | mk result' e' =>
    cases result' with
    | ok mode' =>
      obtain ⟨f, -, -, hsteps⟩ := wrote_of_step hstep'
      obtain ⟨_, hok, -⟩ := hsteps d
      cases hok.symm.trans hstep
    | error cause' =>
      obtain ⟨hline, hcolumn⟩ := Prod.mk.inj hplace
      obtain rfl := error_of_step hstep
      obtain rfl := error_of_step hstep'
      exact ⟨e', by rw [hline, hcolumn], by simp⟩

/-- A return is dropped, or copied into a string. -/
theorem step_return : ∃ mode' e, step .standard maxString mode 0x0D next d = (.ok mode', e) ∧
    (e.written = d.written ∨ (∃ held, mode = .quoted held) ∧ e.written = 0x0D :: d.written) := by
  have hplain (d : Draft) : plainStep .standard 0x0D next d = (.ok .plain, d.advance.skip) := by
    simp [plainStep, standard_classOf, Byte.isWord, Byte.slash, Byte.newline]
  cases mode with
  | plain => exact ⟨.plain, _, hplain d, Or.inl rfl⟩
  | comment => exact ⟨.comment, d.advance.skip, rfl, Or.inl rfl⟩
  | quoted held =>
    have hline : (0x0D : UInt8) ≠ Byte.newline := by decide
    have hdelimiter : (0x0D : UInt8) ≠ Byte.delimiter := by decide
    have hquote : (0x0D : UInt8) ≠ Byte.quote := by decide
    rcases Nat.lt_or_ge held maxString with hroom | hroom
    · exact ⟨.quoted (held + 1), _, step_quoted_iff.mpr (.content hline hdelimiter hquote hroom),
        Or.inr ⟨⟨held, rfl⟩, rfl⟩⟩
    · refine ⟨.plain, d.endString.advance.skip, step_quoted_iff.mpr (.outside ?_ (hplain _)),
        Or.inl rfl⟩
      exact Or.inr ⟨hdelimiter, hquote, hroom⟩

theorem withReturns_newline :
    withReturns (Byte.newline :: rest) = 0x0D :: Byte.newline :: withReturns rest := by
  simp [withReturns]

theorem withReturns_cons (h : b ≠ Byte.newline) :
    withReturns (b :: rest) = b :: withReturns rest := by
  simp [withReturns, h]

/-- Slashes stand where they stood. -/
theorem head?_withReturns :
    (withReturns rest).head? = some Byte.slash ↔ rest.head? = some Byte.slash := by
  cases rest with
  | nil => rfl
  | cons b rest =>
    by_cases hb : b = Byte.newline
    · subst hb
      rw [withReturns_newline]
      show some 0x0D = some Byte.slash ↔ some Byte.newline = some Byte.slash
      decide
    · rw [withReturns_cons hb]
      rfl

/-- A return in front of the newline changes no place, and no text but at the end of a string that
the line leaves open. -/
theorem read_lineEnd {rest' : List UInt8} (hplace : d.place = d'.place)
    (hwritten : Beside d.written d'.written) (hbegan : Began maxString mode d.written) :
    ∃ e e', read .standard maxString mode (Byte.newline :: rest) d =
        read .standard maxString .plain rest e ∧
      read .standard maxString mode (0x0D :: Byte.newline :: rest') d' =
        read .standard maxString .plain rest' e' ∧
      e.place = e'.place ∧ Beside e.written e'.written := by
  obtain ⟨e₁, he₁, hstep₁⟩ := @step_newline maxString rest.head? mode d
  obtain ⟨m, c, hreturn, hc⟩ := @step_return maxString (some Byte.newline) mode d'
  obtain ⟨e₂, he₂, hstep₂⟩ := @step_newline maxString rest'.head? m c
  refine ⟨e₁, e₂, by rw [read, hstep₁], ?_, ?_, ?_⟩
  · rw [read, List.head?_cons, hreturn]
    show read .standard maxString m (Byte.newline :: rest') c = _
    rw [read, hstep₂]
  · rw [place_of_step hstep₁, place_of_step hstep₂, place_of_step hreturn, hplace]
    rfl
  · rw [he₁, he₂]
    refine Beside.cons (Twin.beside ?_) (by decide)
    rcases hc with hc | ⟨⟨held, rfl⟩, hc⟩
    · rw [hc]
      exact hwritten.closed
    · rw [hc]
      exact hwritten.broken hbegan.2

/-- The returns change no place in front of a byte that is read, and no text but at the end of
strings that are left open. -/
theorem read_withReturns (hplace : d.place = d'.place) (hwritten : Beside d.written d'.written)
    (hbegan : Began maxString mode d.written)
    (hread : read .standard maxString mode source d = (result, e)) :
    ∃ e', read .standard maxString mode (withReturns source) d' = (result, e') ∧
      ∀ mode', result = .ok mode' → Beside e.written e'.written := by
  induction source generalizing mode d d' with
  | nil =>
    cases hread
    exact ⟨d', rfl, fun _ _ => hwritten⟩
  | cons b rest ih =>
    by_cases hb : b = Byte.newline
    · subst hb
      obtain ⟨e₁, e₂, hread₁, hread₂, hplaces, hlines⟩ :=
        @read_lineEnd maxString mode rest d d' (withReturns rest) hplace hwritten hbegan
      have hplain : Began maxString .plain e₁.written := trivial
      rw [withReturns_newline, hread₂]
      exact ih hplaces hlines hplain (hread₁ ▸ hread)
    · rw [withReturns_cons hb]
      cases hstep : step .standard maxString mode b rest.head? d with
      | mk result₁ d₁ =>
      obtain ⟨d₁', hstep', hside⟩ := step_beside hplace hwritten hstep
      have hnext : step .standard maxString mode b (withReturns rest).head? d' =
          (result₁, d₁') := by
        rw [← hstep']
        exact step_congr fun _ => head?_withReturns
      rw [read, hstep] at hread
      cases result₁ with
      | ok m =>
        obtain ⟨hplaces, hlines⟩ := hside m rfl
        obtain ⟨e', hread', hbeside⟩ := ih hplaces hlines (hbegan.step hstep) hread
        refine ⟨e', ?_, hbeside⟩
        rw [read, hnext]
        exact hread'
      | error cause =>
        cases hread
        exact ⟨d₁', by rw [read, hnext], by simp⟩

end Delimited

namespace Token

variable {limits : Limits} {quotes : Nat} {tokens tokens' : List Token}

/-- Tokens that are alike are judged alike. -/
theorem verdict_alike (h : List.Forall₂ Alike tokens tokens') :
    (∃ e, verdict limits quotes tokens = .error e ∧ verdict limits quotes tokens' = .error e) ∨
      verdict limits quotes tokens = .ok tokens ∧ verdict limits quotes tokens' = .ok tokens' := by
  unfold verdict
  split
  · have hdrop := List.forall₂_drop limits.maxTokenCount h
    generalize tokens.drop limits.maxTokenCount = rest at hdrop ⊢
    generalize tokens'.drop limits.maxTokenCount = rest' at hdrop ⊢
    cases hdrop with
    | nil => exact Or.inr ⟨rfl, rfl⟩
    | cons halike => exact Or.inl ⟨_, rfl, by simp only [List.head?_cons, halike.line]⟩
  · exact Or.inl ⟨_, rfl, rfl⟩

end Token

theorem error_of_map {ε α β : Type} {f : α → β} {x : Except ε α} {e : ε}
    (h : x.map f = .error e) : x = .error e := by
  cases x <;> cases h
  rfl

theorem ok_of_map {ε α β : Type} {f : α → β} {x : Except ε α} {b : β} (h : x.map f = .ok b) :
    ∃ a, x = .ok a ∧ f a = b := by
  cases x <;> cases h
  exact ⟨_, rfl, rfl⟩

/-- Returns in front of the newlines change no token that is a lexeme. -/
theorem tokenize_withReturns (limits : Limits) (source : List UInt8) :
    (∃ e, tokenize limits source = .error e ∧ tokenize limits (withReturns source) = .error e) ∨
      ∃ t t', tokenize limits source = .ok t ∧ tokenize limits (withReturns source) = .ok t' ∧
        List.Forall₂ Token.Alike t.tokens t'.tokens := by
  have hbegan : Delimited.Began limits.maxStringLength .plain ({} : Delimited.Draft).written :=
    trivial
  cases hread : Delimited.read .standard limits.maxStringLength .plain source {} with
  | mk result d =>
  obtain ⟨d', hread', hbeside⟩ :=
    Delimited.read_withReturns rfl (Delimited.Twin.nil.beside) hbegan hread
  cases result with
  | error cause => exact Or.inl ⟨cause, tokenize_of_refused hread, tokenize_of_refused hread'⟩
  | ok mode =>
    obtain ⟨htokens, hcount⟩ := (hbeside mode rfl).tokens
    have hverdict := tokenize_of_read hread
    have hverdict' := tokenize_of_read hread'
    rw [← hcount] at hverdict'
    rcases Token.verdict_alike (List.rel_reverse htokens) with ⟨e, he, he'⟩ | ⟨hok, hok'⟩
    · rw [he] at hverdict
      rw [he'] at hverdict'
      exact Or.inl ⟨e, error_of_map hverdict, error_of_map hverdict'⟩
    · rw [hok] at hverdict
      rw [hok'] at hverdict'
      obtain ⟨t, ht, hlist⟩ := ok_of_map hverdict
      obtain ⟨t', ht', hlist'⟩ := ok_of_map hverdict'
      refine Or.inr ⟨t, t', ht, ht', ?_⟩
      rw [hlist, hlist']
      exact List.rel_reverse htokens

end Ttm.Source
