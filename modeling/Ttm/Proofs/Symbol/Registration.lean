import Ttm.Proofs.Symbol.Request

/-!
Registering the library in tables that are short of room. What does not fit is cut off, and stays
so: a full table takes nothing more.
-/
namespace Ttm.Symbol
namespace Table

/-- The symbol is found by its scope and name, and stands there. -/
def Has (t : Table) (x : Symbol) : Prop :=
  ∃ i, t.lookup x.scope x.name = some i ∧ t.get? i = some x

/-- What a table begins with once the library was registered in it, or was refused. -/
inductive Stocked (capacity : Nat) (t : Table) : Prop
  | whole (h : Signature.library <+: t.toList)
  | cut (hshort : capacity < 5) (h : t.toList = Signature.library.take capacity)

variable {capacity n m : Nat} {t u : Table} {x : Symbol} {xs : List Symbol}
  {missing : List Signature}

theorem Found.has (h : t.Found) (hx : x ∈ t.toList) (hkey : x.literalKey? = none) : t.Has x := by
  obtain ⟨i, hi⟩ := mem_toList_iff.mp hx
  exact ⟨i, h i x hi hkey, hi⟩

theorem refusal?_of_full (h : t.capacity ≤ t.size) :
    t.refusal? x = some (.capacityExceeded t.capacity) := if_pos h

/-- Symbols that are too many are added up to the capacity. -/
theorem insertAll_of_short (hi : t.Indexed) (hd : Distinct (t.toList ++ xs))
    (ht : t.size ≤ t.capacity) (hshort : t.capacity < t.size + xs.length) :
    ∃ u, insertAll xs t = (.error (.capacityExceeded t.capacity), u) ∧
      u.toList = t.toList ++ xs.take (t.capacity - t.size) := by
  induction xs generalizing t with
  | nil => exact absurd hshort (Nat.not_lt_of_le ht)
  | cons x xs ih =>
    rw [List.length_cons] at hshort
    by_cases hfull : t.capacity ≤ t.size
    · refine ⟨t, by simp [insertAll, insert, refusal?_of_full hfull], ?_⟩
      rw [Nat.sub_eq_zero_of_le hfull, List.take_zero, List.append_nil]
    · have hroom := Nat.lt_of_not_le hfull
      have hr : t.refusal? x = none :=
        refusal?_eq_none.mpr ⟨hroom, fun _ => lookup_of_distinct hi hd⟩
      obtain ⟨u, hu, hlist⟩ := ih (hi.add hr) (by rw [toList_add]; simpa using hd)
        (by rw [size_add, capacity_add]; omega) (by rw [size_add, capacity_add]; omega)
      refine ⟨u, by rw [insertAll_cons_of_none hr, hu, capacity_add], ?_⟩
      have hone : t.capacity - t.size = t.capacity - (t.size + 1) + 1 := by omega
      rw [hlist, toList_add, size_add, capacity_add, hone, List.take_succ_cons, List.append_assoc]
      rfl

theorem addLibrary_of_short (hi : t.Indexed) (ht : t.size ≤ t.capacity)
    (hd : Distinct (t.toList ++ missing.flatMap Signature.symbols))
    (hshort : t.capacity < t.size + (missing.flatMap Signature.symbols).length) :
    ∃ u, addLibrary missing n t = (.error (.capacityExceeded t.capacity), u) ∧
      u.toList = t.toList ++ (missing.flatMap Signature.symbols).take (t.capacity - t.size) := by
  induction missing generalizing t n with
  | nil => exact absurd hshort (Nat.not_lt_of_le ht)
  | cons s missing ih =>
    have hfree := lookup_signature_of_distinct hi hd
    rw [List.flatMap_cons, ← List.append_assoc] at hd
    rw [List.flatMap_cons, List.length_append] at hshort
    have hsymbols := List.Pairwise.sublist (List.sublist_append_left _ _) hd
    rw [List.flatMap_cons, List.take_append]
    by_cases hroom : t.size + s.symbols.length ≤ t.capacity
    · obtain ⟨u, hu, hindexed, hlist, hcapacity⟩ := insertAll_of_room hi hroom hsymbols
      have hsize : u.size = t.size + s.symbols.length := by
        rw [← length_toList, hlist, List.length_append, length_toList]
      obtain ⟨v, hv, hlist'⟩ := ih (t := u) (n := n + 1) hindexed (by omega)
        (by rw [hlist]; exact hd) (by omega)
      refine ⟨v, by simp [addLibrary, hfree, hu, hv, hcapacity], ?_⟩
      rw [hlist', hlist, hsize, hcapacity, List.take_of_length_le (Nat.le_sub_of_add_le' hroom),
        Nat.sub_add_eq, List.append_assoc]
    · obtain ⟨u, hu, hlist⟩ := insertAll_of_short hi hsymbols ht (Nat.lt_of_not_le hroom)
      refine ⟨u, by simp [addLibrary, hfree, hu], ?_⟩
      have hnone : t.capacity - t.size - s.symbols.length = 0 := by omega
      rw [hlist, hnone, List.take_zero, List.append_nil]

/-- A table that is too small for the library holds as much of it as fits. -/
theorem registerLibrary_empty_of_short (h : capacity < 5) :
    ∃ u, (empty capacity).registerLibrary = (.error (.capacityExceeded capacity), u) ∧
      u.toList = Signature.library.take capacity :=
  addLibrary_of_short (indexed_empty capacity) (Nat.zero_le capacity) distinct_library h

theorem stocked_empty : Stocked capacity (empty capacity).registerLibrary.2 := by
  rcases Nat.lt_or_ge capacity 5 with hshort | hroom
  · obtain ⟨u, hu, hlist⟩ := registerLibrary_empty_of_short hshort
    rw [hu]
    exact .cut hshort hlist
  · obtain ⟨u, hu, -, hlist, -⟩ := registerLibrary_empty hroom
    rw [hu]
    exact .whole (hlist ▸ List.prefix_rfl)

theorem full_of_cut (hk : Kept capacity t) (hshort : capacity < 5)
    (h : t.toList = Signature.library.take capacity) : t.capacity ≤ t.size := by
  have hlibrary : Signature.library.length = 5 := rfl
  rw [hk.capacity, ← length_toList, h, List.length_take, hlibrary]
  omega

theorem Stocked.add (h : Stocked capacity t) (hk : Kept capacity t)
    (hr : t.refusal? x = none) : Stocked capacity (t.add x) := by
  cases h with
  | whole h => exact .whole (toList_add ▸ h.trans (List.prefix_append ..))
  | cut hshort h =>
    rw [refusal?_of_full (full_of_cut hk hshort h)] at hr
    cases hr

theorem registerLibrary_of_full (h : t.capacity ≤ t.size) : t.registerLibrary.2 = t := by
  refine registerLibrary_induction (P := (· = t)) ?_ rfl
  rintro _ x - rfl hr
  rw [refusal?_of_full h] at hr
  cases hr

theorem addLibrary_of_found
    (h : ∀ s ∈ missing, (t.lookup globalScope s.name).isSome) :
    addLibrary missing n t = (.ok n, t) := by
  induction missing with
  | nil => rfl
  | cons s missing ih =>
    rw [List.forall_mem_cons] at h
    rw [addLibrary, if_pos h.1, ih h.2]

/-- With a full table registration is a question: whether the library functions are there. -/
theorem found_of_addLibrary (hfull : t.capacity ≤ t.size)
    (h : addLibrary missing n t = (.ok m, u)) :
    ∀ s ∈ missing, (t.lookup globalScope s.name).isSome := by
  induction missing with
  | nil => simp
  | cons s missing ih =>
    rw [addLibrary] at h
    split at h
    · next hfound => exact List.forall_mem_cons.mpr ⟨hfound, ih h⟩
    · simp [Signature.symbols, insertAll, insert, refusal?_of_full hfull] at h

theorem literalKey?_of_mem_library (hx : x ∈ Signature.library) : x.literalKey? = none := by
  have hall : ∀ x ∈ Signature.library, x.literalKey? = none := by decide
  exact hall x hx

theorem Stocked.has_library (h : Stocked capacity t) (hk : Kept capacity t) (hroom : 5 ≤ capacity)
    (hx : x ∈ Signature.library) : t.Has x := by
  cases h with
  | whole h => exact hk.found.has (h.subset hx) (literalKey?_of_mem_library hx)
  | cut hshort => omega

theorem Kept.registerLibrary_of_whole (hk : Kept capacity t)
    (h : Signature.library <+: t.toList) : t.registerLibrary = (.ok 0, t) := by
  refine addLibrary_of_found fun s hs => ?_
  have hmem : .library s.name globalScope s.returns .function ∈ Signature.library :=
    List.mem_flatMap.mpr ⟨s, hs, List.mem_cons_self⟩
  obtain ⟨i, hi, -⟩ := hk.found.has (h.subset hmem) (literalKey?_of_mem_library hmem)
  exact Option.isSome_iff_exists.mpr ⟨i, hi⟩

/-- Where the library was registered or refused, registering it again changes nothing. -/
theorem Stocked.registerLibrary (h : Stocked capacity t) (hk : Kept capacity t) :
    t.registerLibrary.2 = t := by
  cases h with
  | whole h => rw [hk.registerLibrary_of_whole h]
  | cut hshort h => exact registerLibrary_of_full (full_of_cut hk hshort h)

/-- Where registration succeeds, no more than the parameters of the last function is cut off. -/
theorem Stocked.has_of_registered (h : Stocked capacity t) (hk : Kept capacity t)
    (hr : t.registerLibrary = (.ok n, u)) (hx : x ∈ Signature.library.take 3) : t.Has x := by
  have hkey := literalKey?_of_mem_library (List.mem_of_mem_take hx)
  cases h with
  | whole h => exact hk.found.has (h.subset (List.mem_of_mem_take hx)) hkey
  | cut hshort h =>
    have hfound := found_of_addLibrary (full_of_cut hk hshort h) hr
    rcases Nat.lt_or_ge capacity 3 with hlt | hroom
    · have hnone : ∀ c < 3, (Signature.library.take c).findIdx? (isNamed globalScope "concat") =
          none := by decide
      have hconcat := hfound ⟨"concat", .str, [.str, .str]⟩ (by decide)
      rw [hk.indexed.lookup, h, hnone capacity hlt] at hconcat
      cases hconcat
    · have htake : Signature.library.take 3 <+: Signature.library.take capacity :=
        List.take_prefix_take_left hroom
      exact hk.found.has (h ▸ htake.subset hx) hkey

end Table
end Ttm.Symbol
