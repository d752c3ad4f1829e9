import Ttm.Symbol.Library

/-! Both indices of a symbol table agree with a search through its symbols. -/
namespace Ttm.Symbol

/-- A name that is found by its scope; literals with a value are not. -/
def isNamed (scope name : String) (x : Symbol) : Bool :=
  x.literalKey?.isNone && x.scope == scope && x.name == name

def hasValue (type : DataType) (value : String) (x : Symbol) : Bool :=
  x.literalKey? == some (type, value)

namespace Table

structure Indexed (t : Table) : Prop where
  lookup : ∀ scope name, t.lookup scope name = t.toList.findIdx? (isNamed scope name)
  lookupLiteral : ∀ type value,
    t.lookupLiteral type value = t.toList.findIdx? (hasValue type value)

variable {t : Table} {x y : Symbol} {i : Nat} {scope name value : String} {type : DataType}

theorem indexed_empty (capacity : Nat) : Indexed (empty capacity) := by
  constructor
  · intro scope name
    exact Std.HashMap.getElem?_empty
  · intro type value
    exact Std.HashMap.getElem?_empty

theorem toList_add : (t.add x).toList = t.toList ++ [x] := by
  unfold add toList
  cases x.literalKey? <;> simp

theorem length_toList : t.toList.length = t.size := rfl

@[simp] theorem size_add : (t.add x).size = t.size + 1 := by
  rw [← length_toList, toList_add, List.length_append, length_toList]
  rfl

@[simp] theorem capacity_add : (t.add x).capacity = t.capacity := by
  unfold add
  cases x.literalKey? <;> rfl

theorem get?_eq_getElem? : t.get? i = t.toList[i]? := Array.getElem?_toList.symm

theorem get?_lt (h : t.get? i = some x) : i < t.size := by
  rw [get?_eq_getElem?] at h
  exact (List.getElem?_eq_some_iff.mp h).1

@[simp] theorem get?_add_self : (t.add x).get? t.size = some x := by
  rw [get?_eq_getElem?, toList_add, ← length_toList]
  exact List.getElem?_concat_length

theorem get?_add_of_lt (h : i < t.size) : (t.add x).get? i = t.get? i := by
  rw [get?_eq_getElem?, toList_add, get?_eq_getElem?]
  exact List.getElem?_append_left h

theorem get?_add (h : t.get? i = some y) : (t.add x).get? i = some y := by
  rw [get?_add_of_lt (get?_lt h), h]

/-- What stands in a table with one symbol more. -/
theorem get?_add_eq_some (h : (t.add x).get? i = some y) :
    t.get? i = some y ∨ i = t.size ∧ y = x := by
  have hlt := get?_lt h
  rw [size_add] at hlt
  rcases Nat.lt_succ_iff_lt_or_eq.mp hlt with hi | rfl
  · rw [get?_add_of_lt hi] at h
    exact Or.inl h
  · rw [get?_add_self, Option.some.injEq] at h
    exact Or.inr ⟨rfl, h.symm⟩

theorem mem_toList_iff : x ∈ t.toList ↔ ∃ i, t.get? i = some x := by
  simp only [get?_eq_getElem?]
  exact List.mem_iff_getElem?

theorem refusal?_eq_none : t.refusal? x = none ↔
    t.size < t.capacity ∧ (x.literalKey? = none → t.lookup x.scope x.name = none) := by
  unfold refusal? lookup
  rw [Std.HashMap.contains_eq_isSome_getElem?]
  by_cases hfull : t.capacity ≤ t.size
  · simp [hfull, Nat.not_lt_of_le hfull]
  · cases x.literalKey? <;> simp [hfull, Nat.lt_of_not_le hfull]

theorem findIdx?_add (p : Symbol → Bool) : (t.add x).toList.findIdx? p =
    (t.toList.findIdx? p).or (if p x then some t.size else none) := by
  rw [toList_add, List.findIdx?_append, List.findIdx?_singleton, length_toList]
  cases p x <;> simp

theorem lookup_add_of_key {key : DataType × String} (hkey : x.literalKey? = some key) :
    (t.add x).lookup scope name = t.lookup scope name := by
  simp [lookup, add, hkey]

theorem lookup_add (hkey : x.literalKey? = none) : (t.add x).lookup scope name =
    if x.scope = scope ∧ x.name = name then some t.size else t.lookup scope name := by
  simp [lookup, add, hkey, Std.HashMap.getElem?_insert]

theorem lookupLiteral_add_of_none (hkey : x.literalKey? = none) :
    (t.add x).lookupLiteral type value = t.lookupLiteral type value := by
  simp [lookupLiteral, add, hkey]

theorem lookupLiteral_add {key : DataType × String} (hkey : x.literalKey? = some key) :
    (t.add x).lookupLiteral type value =
      (t.lookupLiteral type value).or (if key = (type, value) then some t.size else none) := by
  simp only [lookupLiteral, add, hkey, Std.HashMap.getElem?_insertIfNew]
  by_cases hsame : key = (type, value)
  · subst hsame
    cases hfound : t.literals[(type, value)]? with
    | none =>
      have hmem : (type, value) ∉ t.literals := by simpa using hfound
      simp [hmem]
    | some i =>
      have hmem : (type, value) ∈ t.literals := by
        rw [Std.HashMap.mem_iff_isSome_getElem?, hfound]
        rfl
      simp [hmem]
  · simp [hsame]

/-- A symbol that is not refused keeps both indices right. -/
theorem Indexed.add (h : t.Indexed) (hr : t.refusal? x = none) : (t.add x).Indexed := by
  have hfree := (refusal?_eq_none.mp hr).2
  constructor
  · intro scope name
    rw [findIdx?_add, ← h.lookup]
    cases hkey : x.literalKey? with
    | some key => simp [lookup_add_of_key hkey, isNamed, hkey]
    | none =>
      rw [lookup_add hkey]
      by_cases hsame : x.scope = scope ∧ x.name = name
      · obtain ⟨rfl, rfl⟩ := hsame
        simp [hfree hkey, isNamed, hkey]
      · have hnot : isNamed scope name x = false := by simpa [isNamed, hkey] using hsame
        simp [hsame, hnot]
  · intro type value
    rw [findIdx?_add, ← h.lookupLiteral]
    cases hkey : x.literalKey? with
    | none => simp [lookupLiteral_add_of_none hkey, hasValue, hkey]
    | some key => simp [lookupLiteral_add hkey, hasValue, hkey]

theorem get?_of_findIdx? {p : Symbol → Bool} (h : t.toList.findIdx? p = some i) :
    ∃ x, t.get? i = some x ∧ p x := by
  obtain ⟨hi, hp, -⟩ := List.findIdx?_eq_some_iff_getElem.mp h
  refine ⟨t.toList[i], ?_, hp⟩
  rw [get?_eq_getElem?]
  exact List.getElem?_eq_getElem hi

theorem Indexed.get?_of_lookup (h : t.Indexed) (hl : t.lookup scope name = some i) :
    ∃ x, t.get? i = some x ∧ x.literalKey? = none ∧ x.scope = scope ∧ x.name = name := by
  rw [h.lookup] at hl
  obtain ⟨x, hx, hnamed⟩ := get?_of_findIdx? hl
  exact ⟨x, hx, by simpa [isNamed, and_assoc] using hnamed⟩

theorem Indexed.get?_of_lookupLiteral (h : t.Indexed)
    (hl : t.lookupLiteral type value = some i) :
    ∃ x, t.get? i = some x ∧ x.literalKey? = some (type, value) := by
  rw [h.lookupLiteral] at hl
  obtain ⟨x, hx, hvalue⟩ := get?_of_findIdx? hl
  exact ⟨x, hx, by simpa [hasValue] using hvalue⟩

/-- Every name finds the symbol that has it, so two symbols never have one name in one scope. -/
def Found (t : Table) : Prop :=
  ∀ i x, t.get? i = some x → x.literalKey? = none → t.lookup x.scope x.name = some i

theorem Found.add (h : t.Found) (hr : t.refusal? x = none) : (t.add x).Found := by
  intro i y hy hkey
  rcases get?_add_eq_some hy with hy | ⟨rfl, rfl⟩
  · have hfound := h i y hy hkey
    cases hx : x.literalKey? with
    | some key => rw [lookup_add_of_key hx, hfound]
    | none =>
      rw [lookup_add hx]
      split
      · next hsame =>
        have hfree := (refusal?_eq_none.mp hr).2 hx
        rw [hsame.1, hsame.2, hfound] at hfree
        cases hfree
      · exact hfound
  · rw [lookup_add hkey, if_pos ⟨rfl, rfl⟩]

theorem Found.eq {j : Nat} (h : t.Found) (hx : t.get? i = some x) (hy : t.get? j = some y)
    (hxkey : x.literalKey? = none) (hykey : y.literalKey? = none) (hscope : x.scope = y.scope)
    (hname : x.name = y.name) : i = j := by
  have hi := h i x hx hxkey
  have hj := h j y hy hykey
  rw [hscope, hname, hj] at hi
  exact (Option.some.inj hi).symm

end Table
end Ttm.Symbol
