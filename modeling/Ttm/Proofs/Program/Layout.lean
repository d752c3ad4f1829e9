import Ttm.Proofs.Program.Bracket
import Ttm.Proofs.Program.Enclosing

/-! Where the list of a function stands among the tokens, and what encloses it and its body. -/
namespace Ttm.Program

open Lexeme (Kind)
open Source (Token)

/-- Brackets of both forms are closed, and none that was not opened. -/
structure Matched (tokens : List Token) : Prop where
  settled : opened tokens = closed tokens
  covered : ∀ before, before <+: tokens → closed before ≤ opened before

variable {limits : Limits} {done rest tokens list before : List Token} {token : Token}
  {type : DataType} {k : Kind} {scope : String}

theorem opened_append : opened (done ++ rest) = opened done + opened rest := List.countP_append

theorem closed_append : closed (done ++ rest) = closed done + closed rest := List.countP_append

theorem opened_cons : opened (token :: rest) = token.opens.toNat + opened rest := by
  rw [opened, List.countP_cons, Nat.add_comm]
  cases token.opens <;> rfl

theorem closed_cons : closed (token :: rest) = token.closes.toNat + closed rest := by
  rw [closed, List.countP_cons, Nat.add_comm]
  cases token.closes <;> rfl

theorem functions_append :
    functions (done ++ rest) = functions done ++ gather function? done rest := by
  rw [functions, gather_append, List.nil_append]
  rfl

/-- The last two tokens are not of a kind that none of the last ones has. -/
theorem recent?_append_ne (h0 : recent? done 0 ≠ some k) (h1 : recent? done 1 ≠ some k)
    (hrest : ∀ token ∈ rest, token.kind? ≠ some k) :
    recent? (done ++ rest) 0 ≠ some k ∧ recent? (done ++ rest) 1 ≠ some k := by
  induction rest using List.reverseRecOn with
  | nil =>
    rw [List.append_nil]
    exact ⟨h0, h1⟩
  | append_singleton rest token ih =>
    rw [← List.append_assoc, recent?_concat, recent?_concat_succ]
    exact ⟨hrest token (by simp), (ih fun x hx => hrest x (by simp [hx])).1⟩

/-- Tokens without `fn` define no function. -/
theorem functions_append_of_not_fn (h0 : recent? done 0 ≠ some .fnWord)
    (h1 : recent? done 1 ≠ some .fnWord) (hrest : ∀ token ∈ rest, token.kind? ≠ some .fnWord) :
    functions (done ++ rest) = functions done := by
  rw [functions_append, gather_eq_nil, List.append_nil]
  intro before token after heq
  have hbefore : ∀ x ∈ before, x.kind? ≠ some .fnWord := fun x hx => hrest x (by simp [heq, hx])
  exact if_neg (recent?_append_ne h0 h1 hbefore).2

theorem exists_of_enclosing (h : enclosing done = scope) (hscope : scope ≠ Symbol.globalScope) :
    opened done ≠ closed done ∧ ∃ f, (functions done).getLast? = some f ∧ f.2 = scope := by
  unfold enclosing at h
  split at h
  · exact absurd h.symm hscope
  · next hdepth =>
    refine ⟨hdepth, ?_⟩
    unfold lastFunction at h
    cases hlast : (functions done).getLast? with
    | none =>
      rw [hlast] at h
      exact absurd h.symm hscope
    | some f =>
      rw [hlast] at h
      exact ⟨f, rfl, h⟩

/-- A closing bracket that no bracket in front of it matches. -/
theorem exists_closing (h : opened tokens < closed tokens) :
    ∃ list closing rest, tokens = list ++ closing :: rest ∧ closing.closes ∧ Matched list := by
  have hexists : ∃ n, opened (tokens.take n) < closed (tokens.take n) :=
    ⟨tokens.length, by rwa [List.take_length]⟩
  obtain ⟨n, hn, hfirst⟩ : ∃ n, opened (tokens.take n) < closed (tokens.take n) ∧
      ∀ m, m < n → ¬ opened (tokens.take m) < closed (tokens.take m) :=
    ⟨Nat.find hexists, Nat.find_spec hexists, fun m hm => Nat.find_min hexists hm⟩
  cases n with
  | zero => exact absurd hn (Nat.lt_irrefl 0)
  | succ n =>
    have hprevious := hfirst n (Nat.lt_succ_self n)
    have hlt : n < tokens.length := by
      by_contra hge
      rw [List.take_of_length_le (by omega)] at hn hprevious
      exact hprevious hn
    rw [List.take_succ_eq_append_getElem hlt, opened_concat, closed_concat] at hn
    have hcloses : tokens[n].closes := by
      by_contra hnot
      rw [Bool.eq_false_iff.mpr hnot, Bool.toNat_false] at hn
      omega
    rw [not_opens_of_closes hcloses, hcloses, Bool.toNat_true, Bool.toNat_false] at hn
    refine ⟨tokens.take n, tokens[n], tokens.drop (n + 1), ?_, hcloses, by omega, ?_⟩
    · rw [List.getElem_cons_drop hlt, List.take_append_drop]
    · intro before hbefore
      have hle := hbefore.length_le
      rw [List.length_take] at hle
      have heq := List.prefix_iff_eq_take.mp (hbefore.trans (List.take_prefix n tokens))
      have := hfirst before.length (by omega)
      rw [heq]
      omega

/-- Behind a `fn`, all brackets are closed until the function has a name. -/
theorem FunctionsOutside.defined {word : Token} (h : FunctionsOutside (done ++ word :: rest))
    (hword : word.kind? = some .fnWord) (hbefore : before <+: word :: rest) :
    opened (done ++ before) = closed (done ++ before) ∨ gather function? done before ≠ [] := by
  obtain ⟨hsettled, type, name, after, rfl, htype, hname⟩ := h.definition hword
  obtain ⟨hwo, hwc⟩ := not_bracket hword (by decide)
  obtain ⟨hto, htc⟩ := not_bracket htype (by decide)
  obtain ⟨tail, htail⟩ := hbefore
  rcases before with _ | ⟨first, _ | ⟨second, _ | ⟨third, before⟩⟩⟩
  · left
    rwa [List.append_nil]
  · cases htail
    left
    rw [opened_concat, closed_concat, hwo, hwc, hsettled]
  · cases htail
    left
    rw [List.append_cons, opened_concat, closed_concat, opened_concat, closed_concat, hwo, hwc, hto,
      htc, hsettled]
  · cases htail
    obtain ⟨found, hfound⟩ := type?_of_kind? htype
    have hdefined : function? (done ++ [word, type]) name = some (found, name.text) := by
      simp [function?, recent?, hword, typed?, hfound]
    exact Or.inr (List.ne_nil_of_mem (mem_gather.mpr ⟨[word, type], name, before, rfl, hdefined⟩))

/-- Among tokens whose functions stand outside of brackets and have different names, the name of one
of them, the bracket behind it, its list, the matching bracket and the rest. -/
structure Layout [Limits] (head : List Token) (type : DataType) (name opening : Token)
    (list : List Token) (closing : Token) (rest : List Token) : Prop where
  outside : FunctionsOutside (head ++ name :: opening :: (list ++ closing :: rest))
  distinct : ((functions (head ++ name :: opening :: (list ++ closing :: rest))).map (·.2)).Nodup
  keyword : recent? head 1 = some .fnWord
  typed : typed? head name = some (type, name.text)
  opening : opening.opens
  closing : closing.closes
  matched : Matched list

namespace Layout

variable {head after : List Token} {name opening closing : Token}

theorem names (h : Layout head type name opening list closing rest) :
    opened head = closed head ∧
      (name.kind? = some .identifier ∨ name.kind? = some .mainWord) :=
  (h.outside.name h.keyword).2

theorem name_ne (h : Layout head type name opening list closing rest) :
    name.text ≠ Symbol.globalScope := by
  intro heq
  have hnone : Kind.ofText? Symbol.globalScope = none := rfl
  rcases h.names.2 with hk | hk <;> simp [Token.kind?, heq, hnone] at hk

theorem not_bracket_name (h : Layout head type name opening list closing rest) :
    name.opens = false ∧ name.closes = false := by
  rcases h.names.2 with hk | hk <;> exact not_bracket hk (by decide)

theorem opening_ne {k : Kind} (h : Layout head type name opening list closing rest)
    (hk : k ≠ .openBrace ∧ k ≠ .openParen ∧ k ≠ .closeBrace ∧ k ≠ .closeParen) :
    opening.kind? ≠ some k := by
  intro heq
  have := h.opening
  simp [not_bracket heq hk] at this

/-- Behind the bracket, one more is open than is closed. -/
theorem depth (h : Layout head type name opening list closing rest) (l : List Token) :
    opened (head ++ name :: opening :: l) = opened head + 1 + opened l ∧
      closed (head ++ name :: opening :: l) = opened head + closed l := by
  have hcloses : opening.closes = false := not_closes_of_opens h.opening
  obtain ⟨ho, hc⟩ := h.not_bracket_name
  rw [opened_append, closed_append, opened_cons, closed_cons, opened_cons, closed_cons, ho, hc,
    hcloses, h.opening, h.names.1]
  simp only [Bool.toNat_false, Bool.toNat_true]
  omega

/-- Up to the next `fn`, the function is the one defined last. -/
theorem functions_eq (h : Layout head type name opening list closing rest) {l : List Token}
    (hl : ∀ token ∈ l, token.kind? ≠ some .fnWord) :
    functions (head ++ name :: opening :: l) = functions head ++ [(type, name.text)] := by
  have hname : recent? (head ++ [name]) 0 ≠ some .fnWord := by
    rw [recent?_concat]
    rcases h.names.2 with hk | hk <;> simp [hk]
  have htype : recent? (head ++ [name]) 1 ≠ some .fnWord := by
    simp [recent?_concat_succ, (h.outside.name h.keyword).1]
  have hall : ∀ token ∈ opening :: l, token.kind? ≠ some .fnWord := by
    intro token htoken
    rcases List.mem_cons.mp htoken with rfl | htoken
    · exact h.opening_ne (by decide)
    · exact hl token htoken
  rw [List.append_cons, functions_append_of_not_fn hname htype hall, functions_concat, function?,
    if_pos h.keyword, h.typed]
  rfl

theorem lastFunction_eq (h : Layout head type name opening list closing rest) {l : List Token}
    (hl : ∀ token ∈ l, token.kind? ≠ some .fnWord) :
    lastFunction (head ++ name :: opening :: l) = name.text := by
  unfold lastFunction
  rw [h.functions_eq hl, List.getLast?_concat]
  rfl

/-- No function is defined in the list, which stands inside of the bracket. -/
theorem not_fn_list (h : Layout head type name opening list closing rest) :
    ∀ token ∈ list, token.kind? ≠ some .fnWord := by
  intro token htoken hk
  obtain ⟨before, after, rfl⟩ := List.append_of_mem htoken
  have houtside := h.outside
  have hsplit : head ++ name :: opening :: (before ++ token :: after ++ closing :: rest) =
      (head ++ name :: opening :: before) ++ token :: (after ++ closing :: rest) := by simp
  rw [hsplit] at houtside
  have hsettled := (houtside.definition hk).1
  have hcovered := h.matched.covered before (List.prefix_append _ _)
  have hdepth := h.depth before
  omega

theorem enclosing_list (h : Layout head type name opening list closing rest)
    (hbefore : before <+: list) : enclosing (head ++ name :: opening :: before) = name.text := by
  have hcovered := h.matched.covered before hbefore
  have hdepth := h.depth before
  rw [enclosing, if_neg (by omega)]
  exact h.lastFunction_eq fun token htoken => h.not_fn_list token (hbefore.subset htoken)

/-- Behind the list, brackets are closed as in front of the function. -/
theorem depth_behind (h : Layout head type name opening list closing rest) (l : List Token) :
    opened (head ++ name :: opening :: (list ++ closing :: l)) =
        opened head + 1 + opened list + opened l ∧
      closed (head ++ name :: opening :: (list ++ closing :: l)) =
        opened head + 1 + opened list + closed l := by
  obtain ⟨ho, hc⟩ := h.depth (list ++ closing :: l)
  rw [ho, hc, opened_append, closed_append, opened_cons, closed_cons,
    not_opens_of_closes h.closing, h.closing, h.matched.settled]
  simp only [Bool.toNat_false, Bool.toNat_true]
  omega

theorem not_fn_behind (h : Layout head type name opening list closing rest) {l : List Token}
    (hl : ∀ token ∈ l, token.kind? ≠ some .fnWord) :
    ∀ token ∈ list ++ closing :: l, token.kind? ≠ some .fnWord := by
  intro token htoken hk
  rcases List.mem_append.mp htoken with hlist | htoken
  · exact h.not_fn_list token hlist hk
  rcases List.mem_cons.mp htoken with rfl | htoken
  · have := h.closing
    simp [not_bracket hk] at this
  · exact hl token htoken hk

theorem enclosing_behind (h : Layout head type name opening list closing rest) {l : List Token}
    (hl : ∀ token ∈ l, token.kind? ≠ some .fnWord) :
    enclosing (head ++ name :: opening :: (list ++ closing :: l)) =
      if opened l = closed l then Symbol.globalScope else name.text := by
  have hdepth := h.depth_behind l
  unfold enclosing
  rw [h.lastFunction_eq (h.not_fn_behind hl)]
  congr 1
  rw [hdepth.1, hdepth.2, Nat.add_left_cancel_iff]

/-- Behind the next `fn`, another function encloses what is inside of brackets. -/
theorem enclosing_ne {word : Token}
    (h : Layout head type name opening list closing (rest ++ word :: after))
    (hrest : ∀ token ∈ rest, token.kind? ≠ some .fnWord) (hword : word.kind? = some .fnWord)
    (hbefore : before <+: word :: after) :
    enclosing ((head ++ name :: opening :: (list ++ closing :: rest)) ++ before) ≠ name.text := by
  intro henclosing
  obtain ⟨hdepth, f, hlast, hf⟩ := exists_of_enclosing henclosing h.name_ne
  have hall : head ++ name :: opening :: (list ++ closing :: (rest ++ word :: after)) =
      (head ++ name :: opening :: (list ++ closing :: rest)) ++ word :: after := by simp
  have houtside := h.outside
  have hdistinct := h.distinct
  obtain ⟨tail, htail⟩ := hbefore
  rw [hall] at houtside
  rw [hall, ← htail, functions_append, gather_append, ← List.append_assoc,
    h.functions_eq (h.not_fn_behind hrest), List.map_append, List.map_append, List.map_append]
    at hdistinct
  have hdefined := (houtside.defined hword ⟨tail, htail⟩).resolve_left hdepth
  rw [functions_append, List.getLast?_append_of_ne_nil _ hdefined] at hlast
  have hdiffer := (List.nodup_append.mp (List.nodup_append.mp hdistinct).1).2.2
  exact hdiffer name.text (by simp) f.2
    (List.mem_map_of_mem (List.mem_of_getLast? hlast)) hf.symm

theorem not_mem_functions (h : Layout head type name opening list closing rest) :
    name.text ∉ (functions head).map (·.2) := by
  have hdistinct := h.distinct
  have hall : head ++ name :: opening :: (list ++ closing :: rest) =
      (head ++ name :: opening :: []) ++ (list ++ closing :: rest) := by simp
  rw [hall, functions_append, h.functions_eq (by simp), List.map_append,
    List.map_append] at hdistinct
  intro hmem
  exact (List.nodup_append.mp (List.nodup_append.mp hdistinct).1).2.2 _ hmem name.text
    (by simp) rfl

end Layout

end Ttm.Program
