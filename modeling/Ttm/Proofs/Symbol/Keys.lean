import Mathlib.Data.List.Dedup
import Mathlib.Data.List.Perm.Subperm
import Ttm.Proofs.Symbol.Library

/-! What tells the symbols of a table apart, and how many of them there can be. -/
namespace Ttm.Symbol

/-- A name in its scope, or a literal by its type and value. -/
inductive Key
  | name (scope name : String)
  | literal (type : DataType) (value : String)
  deriving DecidableEq

def key (x : Symbol) : Key :=
  match x.literalKey? with
  | some (type, value) => .literal type value
  | none => .name x.scope x.name

/-- A name that is declared in a scope. -/
structure Declaration where
  scope : String
  name : String
  kind : SymbolKind
  deriving DecidableEq

def Declaration.key (d : Declaration) : Key := .name d.scope d.name

variable {x : Symbol} {scope name value : String} {type : DataType}

theorem isNamed_eq : isNamed scope name x = (x.key == .name scope name) := by
  unfold isNamed key
  cases x.literalKey? with
  | none =>
    rw [Bool.eq_iff_iff]
    simp
  | some key => simp

theorem hasValue_eq : hasValue type value x = (x.key == .literal type value) := by
  unfold hasValue key
  cases x.literalKey? with
  | none => simp
  | some key =>
    rw [Bool.eq_iff_iff]
    simp [Prod.ext_iff]

theorem literalKey?_of_key (h : x.key = .name scope name) : x.literalKey? = none := by
  unfold key at h
  split at h
  · cases h
  · assumption

theorem key_declared {position : Nat} {kind : SymbolKind} (hk : kind ≠ .literal) :
    (declared name scope position type kind).key = .name scope name := by
  have hliteral : (declared name scope position type kind).literalKey? = none := by
    simp [literalKey?, isLiteral, declared, hk]
  rw [key, hliteral]
  rfl

namespace Table

variable {t : Table} {all : List Key} {declared : List Declaration} {i : Nat}

def keys (t : Table) : List Key := t.toList.map Symbol.key

theorem keys_add : (t.add x).keys = t.keys ++ [x.key] := by
  simp [keys, toList_add]

theorem Indexed.lookup_eq_none (h : t.Indexed) :
    t.lookup scope name = none ↔ .name scope name ∉ t.keys := by
  rw [h.lookup, List.findIdx?_eq_none_iff, keys, List.mem_map]
  simp [isNamed_eq]

theorem Indexed.lookupLiteral_eq_none (h : t.Indexed) :
    t.lookupLiteral type value = none ↔ .literal type value ∉ t.keys := by
  rw [h.lookupLiteral, List.findIdx?_eq_none_iff, keys, List.mem_map]
  simp [hasValue_eq]

theorem Indexed.key_of_lookup (h : t.Indexed) (hl : t.lookup scope name = some i) :
    ∃ x, t.get? i = some x ∧ x.key = .name scope name := by
  obtain ⟨x, hx, hkey, rfl, rfl⟩ := h.get?_of_lookup hl
  exact ⟨x, hx, by rw [key, hkey]⟩

theorem Indexed.key_of_lookupLiteral (h : t.Indexed) (hl : t.lookupLiteral type value = some i) :
    ∃ x, t.get? i = some x ∧ x.key = .literal type value := by
  obtain ⟨x, hx, hkey⟩ := h.get?_of_lookupLiteral hl
  exact ⟨x, hx, by rw [key, hkey]⟩

/-- A table with different symbols, whose keys are among `all`, and room for all of these. -/
structure Fits (all : List Key) (t : Table) : Prop where
  indexed : t.Indexed
  distinct : t.keys.Nodup
  subset : t.keys ⊆ all
  room : all.dedup.length ≤ t.capacity

theorem length_keys : t.keys.length = t.size := List.length_map _

theorem Fits.refusal?_eq_none (h : Fits all t) (hx : x.key ∈ all) (hn : x.key ∉ t.keys) :
    t.refusal? x = none := by
  refine Table.refusal?_eq_none.mpr ⟨?_, fun hkey => ?_⟩
  · have hnodup : (x.key :: t.keys).Nodup := List.nodup_cons.mpr ⟨hn, h.distinct⟩
    have hsubset : x.key :: t.keys ⊆ all.dedup := by
      intro k hk
      rw [List.mem_dedup]
      rcases List.mem_cons.mp hk with rfl | hk
      · exact hx
      · exact h.subset hk
    have hlength := (hnodup.subperm hsubset).length_le
    rw [List.length_cons, length_keys] at hlength
    have := h.room
    omega
  · rw [h.indexed.lookup_eq_none]
    rwa [key, hkey] at hn

theorem Fits.add (h : Fits all t) (hx : x.key ∈ all) (hn : x.key ∉ t.keys) :
    Fits all (t.add x) := by
  refine ⟨h.indexed.add (h.refusal?_eq_none hx hn), ?_, ?_, by rw [capacity_add]; exact h.room⟩
  · rw [keys_add]
    exact List.nodup_append.mpr ⟨h.distinct, List.nodup_singleton _, by
      intro a ha b hb
      rw [List.mem_singleton.mp hb]
      rintro rfl
      exact hn ha⟩
  · rw [keys_add]
    intro k hk
    rcases List.mem_append.mp hk with hk | hk
    · exact h.subset hk
    · exact List.mem_singleton.mp hk ▸ hx

/-- The names of a table are those that are declared, each with its kind. -/
structure Knows (declared : List Declaration) (t : Table) : Prop where
  found : ∀ d ∈ declared, ∃ i x, t.lookup d.scope d.name = some i ∧ t.get? i = some x ∧
    x.key = d.key ∧ x.kind = d.kind
  only : ∀ scope name, .name scope name ∈ t.keys → ∃ d ∈ declared, d.key = .name scope name

theorem Knows.not_mem_keys (h : Knows declared t) (hn : .name scope name ∉ declared.map (·.key)) :
    .name scope name ∉ t.keys := by
  intro hmem
  obtain ⟨d, hd, hkey⟩ := h.only scope name hmem
  exact hn (List.mem_map.mpr ⟨d, hd, hkey⟩)

theorem Knows.addLiteral {key : DataType × String} (h : Knows declared t)
    (hkey : x.literalKey? = some key) : Knows declared (t.add x) := by
  constructor
  · intro d hd
    obtain ⟨i, y, hl, hy, hrest⟩ := h.found d hd
    exact ⟨i, y, (lookup_add_of_key hkey).trans hl, get?_add hy, hrest⟩
  · intro scope name hmem
    rw [keys_add, List.mem_append, List.mem_singleton] at hmem
    rcases hmem with hmem | hmem
    · exact h.only scope name hmem
    · rw [Symbol.key, hkey] at hmem
      cases hmem

theorem Knows.addDeclaration {d : Declaration} (h : Knows declared t) (hkey : x.key = d.key)
    (hkind : x.kind = d.kind) (hn : d.key ∉ t.keys) : Knows (declared ++ [d]) (t.add x) := by
  have hliteral : x.literalKey? = none := literalKey?_of_key hkey
  have hname : x.scope = d.scope ∧ x.name = d.name := by
    rw [Symbol.key, hliteral] at hkey
    exact Key.name.inj hkey
  constructor
  · intro e he
    rcases List.mem_append.mp he with he | he
    · obtain ⟨i, y, hl, hy, hk, hrest⟩ := h.found e he
      refine ⟨i, y, ?_, get?_add hy, hk, hrest⟩
      rw [lookup_add hliteral, if_neg, hl]
      rintro ⟨hscope, hname'⟩
      refine hn (List.mem_map.mpr ⟨y, mem_toList_iff.mpr ⟨i, hy⟩, ?_⟩)
      rw [hk, Declaration.key, Declaration.key, ← hscope, ← hname', hname.1, hname.2]
    · obtain rfl := List.mem_singleton.mp he
      exact ⟨t.size, x, by rw [lookup_add hliteral, if_pos hname], get?_add_self, hkey, hkind⟩
  · intro scope name hmem
    rw [keys_add, List.mem_append, List.mem_singleton] at hmem
    rcases hmem with hmem | hmem
    · obtain ⟨e, he, hk⟩ := h.only scope name hmem
      exact ⟨e, List.mem_append_left _ he, hk⟩
    · exact ⟨d, List.mem_append_right _ (List.mem_singleton.mpr rfl), by rw [hmem, hkey]⟩

end Table
end Ttm.Symbol
