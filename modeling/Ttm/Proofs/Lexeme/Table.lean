import Ttm.Lexeme.Table

/-! How a lexeme table grows at its end. -/
namespace Ttm.Lexeme.Table

variable {t : Table} {l k : Lexeme} {i : Nat}

theorem toList_add : (t.add l).toList = t.toList ++ [l] := by
  simp [add, toList]

theorem length_toList : t.toList.length = t.size := rfl

@[simp] theorem size_add : (t.add l).size = t.size + 1 := by
  rw [← length_toList, toList_add, List.length_append, length_toList]
  rfl

@[simp] theorem capacity_add : (t.add l).capacity = t.capacity := rfl

theorem get?_eq_getElem? : t.get? i = t.toList[i]? := Array.getElem?_toList.symm

theorem get?_lt (h : t.get? i = some l) : i < t.size := by
  rw [get?_eq_getElem?] at h
  exact (List.getElem?_eq_some_iff.mp h).1

@[simp] theorem get?_add_self : (t.add l).get? t.size = some l := by
  rw [get?_eq_getElem?, toList_add, ← length_toList]
  exact List.getElem?_concat_length

theorem get?_add_of_lt (h : i < t.size) : (t.add l).get? i = t.get? i := by
  rw [get?_eq_getElem?, toList_add, get?_eq_getElem?]
  exact List.getElem?_append_left h

theorem get?_add (h : t.get? i = some k) : (t.add l).get? i = some k := by
  rw [get?_add_of_lt (get?_lt h), h]

theorem mem_toList_add : k ∈ (t.add l).toList ↔ k ∈ t.toList ∨ k = l := by
  rw [toList_add, List.mem_append, List.mem_singleton]

theorem mem_toList_of_get? (h : t.get? i = some l) : l ∈ t.toList := by
  rw [get?_eq_getElem?] at h
  exact List.mem_of_getElem? h

@[simp] theorem kinds_add : (t.add l).kinds = t.kinds ++ [l.kind] := by
  simp [kinds, toList_add]

theorem hasKind_iff {kind : Kind} : t.hasKind kind ↔ kind ∈ t.kinds := by
  rw [hasKind, ← Array.any_toList, List.any_eq_true, kinds, List.mem_map, toList]
  simp

theorem length_kinds : t.kinds.length = t.size := List.length_map _

theorem getElem?_kinds : t.kinds[i]? = (t.get? i).map (·.kind) := by
  rw [kinds, List.getElem?_map, get?_eq_getElem?]

/-- The kinds of a table, read from its end. -/
theorem kindFromEnd?_eq {n : Nat} : t.kindFromEnd? (n + 1) = t.kinds.reverse[n]? := by
  have hsize : t.kinds.length = t.entries.size := length_kinds
  unfold kindFromEnd?
  split
  · next hle =>
    rw [List.getElem?_reverse (by omega), hsize, kinds, List.getElem?_map, toList,
      Array.getElem?_toList, Nat.sub_sub, Nat.add_comm 1 n]
  · next hle =>
    rw [List.getElem?_eq_none]
    rw [List.length_reverse]
    omega

theorem kindFromEnd?_eq_some {kind : Kind} {n : Nat} : t.kindFromEnd? (n + 1) = some kind ↔
    ∃ q, t.size = q + (n + 1) ∧ t.kinds[q]? = some kind := by
  have hsize : t.entries.size = t.size := rfl
  have hget (q : Nat) : t.entries[q]? = t.get? q := rfl
  rw [kindFromEnd?, hsize, hget]
  constructor
  · intro h
    split at h
    · exact ⟨t.size - (n + 1), by omega, by rw [getElem?_kinds, h]⟩
    · cases h
  · rintro ⟨q, hq, hk⟩
    have hsub : t.size - (n + 1) = q := by omega
    rw [if_pos (by omega), hsub, ← getElem?_kinds, hk]

theorem countKind_eq {kind : Kind} : t.countKind kind = t.kinds.count kind := by
  rw [countKind, kinds, List.count, List.countP_map, toList, ← Array.countP_toList]
  rfl

end Ttm.Lexeme.Table
