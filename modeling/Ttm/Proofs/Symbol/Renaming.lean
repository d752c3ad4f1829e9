import Mathlib.Logic.Equiv.Basic
import Ttm.Lexeme.Word
import Ttm.Proofs.Symbol.Library

/-! Symbol tables of two programs that differ in the names of what they declare. -/
namespace Ttm

open Lexeme (Kind)

/-- Identifiers stay identifiers and stay apart, and library functions keep their names. -/
structure Renaming [Limits] where
  apply : String → String
  identifier : ∀ text, Kind.ofText? text = some .identifier →
    Kind.ofText? (apply text) = some .identifier
  injective : ∀ text other, Kind.ofText? text = some .identifier →
    Kind.ofText? other = some .identifier → apply text = apply other → text = other
  library : ∀ s ∈ Symbol.Signature.all, apply s.name = s.name

namespace Renaming
variable {limits : Limits} (r : Renaming)

/-- A word that is no identifier stays as it is. -/
def word (text : String) : String :=
  if Kind.ofText? text = some .identifier then r.apply text else text

/-- A declared symbol is renamed, and so is its scope. -/
def symbol (x : Symbol) : Symbol :=
  if x.position.isSome && !x.isLiteral then
    { x with name := r.word x.name, scope := r.word x.scope }
  else x

def tableError : Symbol.TableError → Symbol.TableError
  | .capacityExceeded max => .capacityExceeded max
  | .duplicateKey scope name => .duplicateKey (r.word scope) (r.word name)

variable {r} {text other : String}

theorem ofText?_word : Kind.ofText? (r.word text) = Kind.ofText? text := by
  unfold word
  split
  · next h => rw [r.identifier text h, h]
  · rfl

theorem word_of_not_identifier (h : Kind.ofText? text ≠ some .identifier) : r.word text = text :=
  if_neg h

theorem word_inj : r.word text = r.word other ↔ text = other := by
  constructor
  · intro h
    have hkind : Kind.ofText? text = Kind.ofText? other := by
      rw [← ofText?_word (r := r), h, ofText?_word]
    by_cases hother : Kind.ofText? other = some .identifier
    · have htext := hkind.trans hother
      rw [word, if_pos htext, word, if_pos hother] at h
      exact r.injective text other htext hother h
    · rwa [word_of_not_identifier (hkind ▸ hother), word_of_not_identifier hother] at h
  · exact congrArg r.word

theorem eq_word_iff (h : r.word text = text) : text = r.word other ↔ text = other := by
  constructor
  · exact fun h' => word_inj.mp (h.trans h')
  · rintro rfl
    exact h.symm

@[simp] theorem word_globalScope : r.word Symbol.globalScope = Symbol.globalScope :=
  word_of_not_identifier nofun

end Renaming

namespace Symbol

/-- The name of a library function. -/
def Reserved (name : String) : Prop := name ∈ Signature.all.map (·.name)

instance (name : String) : Decidable (Reserved name) := inferInstanceAs (Decidable (_ ∈ _))

/-- A symbol of the program itself: it stands at a place in the program, and a literal has a
value. -/
def Own (x : Symbol) : Prop := x.position.isSome ∧ (x.isLiteral → x.value.isSome)

variable {limits : Limits} {r : Renaming} {x : Symbol} {scope name : String}

theorem not_reserved_globalScope : ¬ Reserved globalScope := by decide

theorem reserved_word (h : Reserved name) : r.word name = name := by
  obtain ⟨s, hs, rfl⟩ := List.mem_map.mp h
  unfold Renaming.word
  split
  · exact r.library s hs
  · rfl

/-- Library functions are global, and their parameters are in their scopes. -/
theorem place_of_library : ∀ x ∈ Signature.library,
    x.position = none ∧ x.isLiteral = false ∧
      (x.scope = globalScope ∧ Reserved x.name ∨ Reserved x.scope) := by
  decide

theorem symbol_of_library (h : x ∈ Signature.library) : r.symbol x = x := by
  rw [Renaming.symbol, (place_of_library x h).1]
  rfl

@[simp] theorem literalKey?_symbol : (r.symbol x).literalKey? = x.literalKey? := by
  unfold Renaming.symbol
  split <;> rfl

@[simp] theorem isFunction_symbol : (r.symbol x).isFunction = x.isFunction := by
  unfold Renaming.symbol
  split <;> rfl

theorem Own.literalKey? (h : Own x) (hl : x.isLiteral) : x.literalKey?.isSome := by
  rw [Symbol.literalKey?, if_pos hl, Option.isSome_map]
  exact h.2 hl

theorem symbol_of_not_isLiteral (h : Own x) (hl : x.isLiteral = false) :
    r.symbol x = { x with name := r.word x.name, scope := r.word x.scope } := by
  rw [Renaming.symbol, h.1, hl]
  rfl

/-- A declared symbol has the new name where it had the old one, unless the name is sought among
the parameters of a library function. -/
theorem isNamed_symbol (hx : x ∈ Signature.library ∨ Own x) (hscope : ¬ Reserved scope) :
    isNamed (r.word scope) (r.word name) (r.symbol x) = isNamed scope name x := by
  rw [Bool.eq_iff_iff]
  simp only [isNamed, literalKey?_symbol, Bool.and_eq_true, beq_iff_eq]
  rcases hx with hlibrary | hown
  · rw [symbol_of_library hlibrary]
    obtain ⟨-, -, ⟨hglobal, hname⟩ | hreserved⟩ := place_of_library x hlibrary
    · rw [hglobal, Renaming.eq_word_iff Renaming.word_globalScope,
        Renaming.eq_word_iff (reserved_word hname)]
    · rw [Renaming.eq_word_iff (reserved_word hreserved)]
      constructor
      all_goals
        rintro ⟨⟨-, rfl⟩, -⟩
        exact absurd hreserved hscope
  · cases hl : x.isLiteral with
    | true =>
      have hkey : x.literalKey?.isNone = false := by
        rw [← Option.not_isSome, hown.literalKey? hl, Bool.not_true]
      simp only [hkey, Bool.false_eq_true, false_and]
    | false => rw [symbol_of_not_isLiteral hown hl, Renaming.word_inj, Renaming.word_inj]

namespace Table

/-- One table is the other one renamed, and both begin with the library. -/
structure Renames (r : Renaming) (t u : Table) : Prop where
  indexed : t.Indexed
  indexed' : u.Indexed
  capacity : u.capacity = t.capacity
  toList : u.toList = t.toList.map r.symbol
  library : ∀ x ∈ Signature.library, x ∈ t.toList
  own : ∀ x ∈ t.toList, x ∈ Signature.library ∨ Own x

variable {t u : Table} {i : Option Nat} {value : String} {type : DataType}

theorem findIdx?_map_symbol {xs : List Symbol} {p q : Symbol → Bool}
    (h : ∀ x ∈ xs, p (r.symbol x) = q x) : (xs.map r.symbol).findIdx? p = xs.findIdx? q := by
  induction xs with
  | nil => rfl
  | cons x xs ih =>
    rw [List.map_cons, List.findIdx?_cons, List.findIdx?_cons, h x List.mem_cons_self,
      ih fun y hy => h y (List.mem_cons_of_mem x hy)]

theorem Renames.size (h : Renames r t u) : u.size = t.size := by
  rw [← length_toList, h.toList, List.length_map, length_toList]

theorem Renames.isFunction (h : Renames r t u) : u.isFunction i = t.isFunction i := by
  cases i with
  | none => rfl
  | some i =>
    rw [Table.isFunction, Table.isFunction, Option.bind_some, Option.bind_some, get?_eq_getElem?,
      get?_eq_getElem?, h.toList, List.getElem?_map]
    cases t.toList[i]? with
    | none => rfl
    | some x => exact isFunction_symbol

/-- A name is found where its new name is. -/
theorem Renames.lookup (h : Renames r t u) (hscope : ¬ Reserved scope) (name : String) :
    u.lookup (r.word scope) (r.word name) = t.lookup scope name := by
  rw [h.indexed'.lookup, h.indexed.lookup, h.toList]
  exact findIdx?_map_symbol fun x hx => isNamed_symbol (h.own x hx) hscope

theorem Renames.lookupLiteral (h : Renames r t u) :
    u.lookupLiteral type value = t.lookupLiteral type value := by
  rw [h.indexed'.lookupLiteral, h.indexed.lookupLiteral, h.toList]
  refine findIdx?_map_symbol fun x _ => ?_
  rw [hasValue, literalKey?_symbol, hasValue]

/-- A symbol is refused just as the renamed one is. -/
theorem Renames.refusal? (h : Renames r t u) (hx : Own x) (hscope : ¬ Reserved x.scope) :
    u.refusal? (r.symbol x) = (t.refusal? x).map r.tableError := by
  unfold Table.refusal?
  rw [h.size, h.capacity, literalKey?_symbol, Std.HashMap.contains_eq_isSome_getElem?,
    Std.HashMap.contains_eq_isSome_getElem?]
  split
  · rfl
  cases hl : x.isLiteral with
  | true =>
    have hkey : x.literalKey?.isNone = false := by
      rw [← Option.not_isSome, hx.literalKey? hl, Bool.not_true]
    rw [hkey, Bool.false_and, Bool.false_and]
    rfl
  | false =>
    have hlookup := h.lookup hscope x.name
    rw [Table.lookup, Table.lookup] at hlookup
    rw [symbol_of_not_isLiteral hx hl, hlookup]
    split <;> rfl

theorem Renames.add (h : Renames r t u) (hx : Own x) (hscope : ¬ Reserved x.scope)
    (hr : t.refusal? x = none) : Renames r (t.add x) (u.add (r.symbol x)) := by
  have hr' : u.refusal? (r.symbol x) = none := by rw [h.refusal? hx hscope, hr, Option.map_none]
  refine ⟨h.indexed.add hr, h.indexed'.add hr', ?_, ?_, ?_, ?_⟩
  · rw [capacity_add, capacity_add, h.capacity]
  · rw [toList_add, toList_add, h.toList, List.map_append, List.map_singleton]
  · intro y hy
    rw [toList_add]
    exact List.mem_append_left _ (h.library y hy)
  · rw [toList_add]
    refine List.forall_mem_append.mpr ⟨h.own, List.forall_mem_singleton.mpr (Or.inr hx)⟩

/-- No function of the program takes the name of a library function. -/
theorem Renames.not_reserved (h : Renames r t u) (hl : t.lookup globalScope name = none) :
    ¬ Reserved name := by
  intro hname
  obtain ⟨s, hs, rfl⟩ := List.mem_map.mp hname
  have hmem : Symbol.library s.name globalScope s.returns .function ∈ Signature.library :=
    List.mem_flatMap.mpr ⟨s, hs, List.mem_cons_self⟩
  rw [h.indexed.lookup, List.findIdx?_eq_none_iff] at hl
  have hnamed := hl _ (h.library _ hmem)
  simp [isNamed, Symbol.library, Symbol.literalKey?, Symbol.isLiteral] at hnamed

theorem map_symbol_of_library {xs : List Symbol} (h : ∀ x ∈ xs, x ∈ Signature.library) :
    xs.map r.symbol = xs :=
  (List.map_congr_left fun x hx => symbol_of_library (h x hx)).trans (List.map_id' xs)

/-- Where the library finds no room, there is nothing but the library. -/
theorem toList_of_registerLibrary_error {capacity : Nat} {e : TableError}
    (h : (empty capacity).registerLibrary = (.error e, t)) :
    ∀ x ∈ t.toList, x ∈ Signature.library := by
  have hall := registerLibrary_induction (t := empty capacity)
    (P := fun t => ∀ x ∈ t.toList, x ∈ Signature.library)
    (fun t x hx ht _ => by
      rw [toList_add]
      exact List.forall_mem_append.mpr ⟨ht, List.forall_mem_singleton.mpr hx⟩)
    (fun x hx => by cases hx)
  rwa [h] at hall

/-- The library is not renamed. -/
theorem renames_library {capacity n : Nat}
    (h : (empty capacity).registerLibrary = (.ok n, t)) : Renames r t t := by
  obtain ⟨v, hv, hindexed, hlist, -⟩ := registerLibrary_empty (registerLibrary_empty_eq_ok h)
  obtain ⟨-, rfl⟩ := Prod.mk.inj (h.symm.trans hv)
  refine ⟨hindexed, hindexed, rfl, ?_, ?_, ?_⟩
  · rw [hlist]
    exact (map_symbol_of_library fun x hx => hx).symm
  · rw [hlist]
    exact fun x hx => hx
  · rw [hlist]
    exact fun x hx => Or.inl hx

end Table
end Symbol

/-- Two identifiers change their places. -/
def Renaming.swap [Limits] (a b : String) (ha : Kind.ofText? a = some .identifier)
    (hb : Kind.ofText? b = some .identifier) (ha' : ¬ Symbol.Reserved a)
    (hb' : ¬ Symbol.Reserved b) : Renaming where
  apply := Equiv.swap a b
  identifier text h := by
    rw [Equiv.swap_apply_def]
    split
    · exact hb
    split
    · exact ha
    · exact h
  injective _ _ _ _ h := (Equiv.swap a b).injective h
  library s hs := by
    have hname : Symbol.Reserved s.name := List.mem_map_of_mem hs
    refine Equiv.swap_apply_of_ne_of_ne ?_ ?_
    · rintro rfl
      exact ha' hname
    · rintro rfl
      exact hb' hname

end Ttm
