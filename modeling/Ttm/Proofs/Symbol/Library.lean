import Ttm.Proofs.Symbol.Index

/-! What registering the library adds to a symbol table. -/
namespace Ttm.Symbol

namespace Signature

/-- The symbols of the whole library, in the order of their insertion. -/
def library : List Symbol := all.flatMap symbols

end Signature

namespace Table

variable {t u : Table} {x : Symbol} {xs : List Symbol} {n : Nat} {missing : List Signature}
  {P : Table → Prop}

theorem insertAll_cons_of_none (hr : t.refusal? x = none) :
    insertAll (x :: xs) t = insertAll xs (t.add x) := by
  simp [insertAll, insert, hr]

theorem insertAll_induction (hstep : ∀ t x, x ∈ xs → P t → t.refusal? x = none → P (t.add x))
    (h : P t) : P (insertAll xs t).2 := by
  induction xs generalizing t with
  | nil => exact h
  | cons x xs ih =>
    cases hr : t.refusal? x with
    | some e => simpa [insertAll, insert, hr] using h
    | none =>
      rw [insertAll_cons_of_none hr]
      refine ih (fun t y hy => hstep t y (List.mem_cons_of_mem x hy)) ?_
      exact hstep t x List.mem_cons_self h hr

theorem addLibrary_induction
    (hstep : ∀ t x, x ∈ missing.flatMap Signature.symbols → P t → t.refusal? x = none →
      P (t.add x)) (h : P t) : P (addLibrary missing n t).2 := by
  induction missing generalizing t n with
  | nil => exact h
  | cons s missing ih =>
    have hrest : ∀ t x, x ∈ missing.flatMap Signature.symbols → P t → t.refusal? x = none →
        P (t.add x) := by
      intro t x hx
      exact hstep t x (by simp [List.flatMap_cons, hx])
    have hinsert : P (insertAll s.symbols t).2 :=
      insertAll_induction (fun t x hx => hstep t x (by simp [List.flatMap_cons, hx])) h
    unfold addLibrary
    split
    · exact ih hrest h
    · cases hs : insertAll s.symbols t with
      | mk result u =>
        rw [hs] at hinsert
        cases result with
        | error e => exact hinsert
        | ok _ => exact ih hrest hinsert

/-- Whatever holds of a table and is kept by adding library symbols holds once the library is
registered, also when it does not fit. -/
theorem registerLibrary_induction
    (hstep : ∀ t x, x ∈ Signature.library → P t → t.refusal? x = none → P (t.add x)) (h : P t) :
    P t.registerLibrary.2 :=
  addLibrary_induction hstep h

/-- No symbol of the list takes the name of one before it. -/
def Distinct (xs : List Symbol) : Prop :=
  xs.Pairwise fun x y => isNamed y.scope y.name x = false

instance : Decidable (Distinct xs) := inferInstanceAs (Decidable (List.Pairwise _ _))

theorem lookup_of_distinct (hi : t.Indexed) (hd : Distinct (t.toList ++ x :: xs)) :
    t.lookup x.scope x.name = none := by
  rw [hi.lookup, List.findIdx?_eq_none_iff]
  exact fun y hy => (List.pairwise_append.mp hd).2.2 y hy x List.mem_cons_self

theorem insertAll_of_room (hi : t.Indexed) (hroom : t.size + xs.length ≤ t.capacity)
    (hd : Distinct (t.toList ++ xs)) :
    ∃ u, insertAll xs t = (.ok (), u) ∧ u.Indexed ∧ u.toList = t.toList ++ xs ∧
      u.capacity = t.capacity := by
  induction xs generalizing t with
  | nil => exact ⟨t, rfl, hi, by simp, rfl⟩
  | cons x xs ih =>
    rw [List.length_cons] at hroom
    have hr : t.refusal? x = none :=
      refusal?_eq_none.mpr ⟨by omega, fun _ => lookup_of_distinct hi hd⟩
    rw [insertAll_cons_of_none hr]
    obtain ⟨u, hu, hindexed, hlist, hcapacity⟩ := ih (hi.add hr)
      (by rw [size_add, capacity_add]; omega) (by rw [toList_add]; simpa using hd)
    exact ⟨u, hu, hindexed, by rw [hlist, toList_add]; simp, hcapacity.trans capacity_add⟩

theorem insertAll_eq_ok (h : insertAll xs t = (.ok (), u)) (ht : t.size ≤ t.capacity) :
    t.size + xs.length ≤ t.capacity := by
  induction xs generalizing t with
  | nil => exact ht
  | cons x xs ih =>
    cases hr : t.refusal? x with
    | some e => simp [insertAll, insert, hr] at h
    | none =>
      rw [insertAll_cons_of_none hr] at h
      have hlt := (refusal?_eq_none.mp hr).1
      have hrest := ih h (by rw [size_add, capacity_add]; omega)
      rw [size_add, capacity_add] at hrest
      rw [List.length_cons]
      omega

theorem lookup_signature_of_distinct {s : Signature} (hi : t.Indexed)
    (hd : Distinct (t.toList ++ (s :: missing).flatMap Signature.symbols)) :
    t.lookup globalScope s.name = none :=
  lookup_of_distinct (x := .library s.name globalScope s.returns .function) hi hd

theorem addLibrary_of_room (hi : t.Indexed)
    (hroom : t.size + (missing.flatMap Signature.symbols).length ≤ t.capacity)
    (hd : Distinct (t.toList ++ missing.flatMap Signature.symbols)) :
    ∃ u, addLibrary missing n t = (.ok (n + missing.length), u) ∧ u.Indexed ∧
      u.toList = t.toList ++ missing.flatMap Signature.symbols ∧ u.capacity = t.capacity := by
  induction missing generalizing t n with
  | nil => exact ⟨t, rfl, hi, by simp, rfl⟩
  | cons s missing ih =>
    have hfree := lookup_signature_of_distinct hi hd
    rw [List.flatMap_cons, ← List.append_assoc] at hd
    rw [List.flatMap_cons, List.length_append] at hroom
    obtain ⟨u, hu, hindexed, hlist, hcapacity⟩ :=
      insertAll_of_room hi (by omega) (List.Pairwise.sublist (List.sublist_append_left _ _) hd)
    have hsize : u.size = t.size + s.symbols.length := by
      rw [← length_toList, hlist, List.length_append, length_toList]
    obtain ⟨v, hv, hindexed', hlist', hcapacity'⟩ :=
      @ih u (n + 1) hindexed (by rw [hsize, hcapacity]; omega) (by rw [hlist]; exact hd)
    refine ⟨v, ?_, hindexed', ?_, hcapacity'.trans hcapacity⟩
    · simp [addLibrary, hfree, hu, hv]
      omega
    · rw [hlist', hlist, List.flatMap_cons, List.append_assoc]

theorem addLibrary_eq_ok {m : Nat} (hi : t.Indexed) (ht : t.size ≤ t.capacity)
    (hd : Distinct (t.toList ++ missing.flatMap Signature.symbols))
    (h : addLibrary missing n t = (.ok m, u)) :
    t.size + (missing.flatMap Signature.symbols).length ≤ t.capacity := by
  induction missing generalizing t n with
  | nil => exact ht
  | cons s missing ih =>
    have hfree := lookup_signature_of_distinct hi hd
    rw [List.flatMap_cons, ← List.append_assoc] at hd
    cases hs : insertAll s.symbols t with
    | mk result v =>
      cases result with
      | error e => simp [addLibrary, hfree, hs] at h
      | ok _ =>
        have hroom := insertAll_eq_ok hs ht
        obtain ⟨w, hw, hindexed, hlist, hcapacity⟩ :=
          insertAll_of_room hi hroom (List.Pairwise.sublist (List.sublist_append_left _ _) hd)
        rw [hs, Prod.mk.injEq] at hw
        obtain ⟨-, rfl⟩ := hw
        have hsize : v.size = t.size + s.symbols.length := by
          rw [← length_toList, hlist, List.length_append, length_toList]
        simp only [addLibrary, hfree, hs] at h
        have hrest := ih hindexed (by rw [hsize, hcapacity]; exact hroom)
          (by rw [hlist]; exact hd) h
        rw [List.flatMap_cons, List.length_append]
        omega

/-- What is not there yet is refused for want of room only. -/
theorem insertAll_eq_error {e : TableError} (hi : t.Indexed) (hd : Distinct (t.toList ++ xs))
    (h : insertAll xs t = (.error e, u)) : ∃ max, e = .capacityExceeded max := by
  induction xs generalizing t with
  | nil => cases h
  | cons x xs ih =>
    cases hr : t.refusal? x with
    | none =>
      rw [insertAll_cons_of_none hr] at h
      exact ih (hi.add hr) (by rw [toList_add]; simpa using hd) h
    | some cause =>
      have hfree := lookup_of_distinct hi hd
      simp only [insertAll, insert, hr, Prod.mk.injEq, Except.error.injEq] at h
      obtain ⟨rfl, -⟩ := h
      unfold refusal? at hr
      rw [Std.HashMap.contains_eq_isSome_getElem?] at hr
      rw [lookup] at hfree
      split at hr
      · exact ⟨_, (Option.some.inj hr).symm⟩
      · simp [hfree] at hr

theorem addLibrary_eq_error {e : TableError} (hi : t.Indexed) (ht : t.size ≤ t.capacity)
    (hd : Distinct (t.toList ++ missing.flatMap Signature.symbols))
    (h : addLibrary missing n t = (.error e, u)) : ∃ max, e = .capacityExceeded max := by
  induction missing generalizing t n with
  | nil => cases h
  | cons s missing ih =>
    have hfree := lookup_signature_of_distinct hi hd
    rw [List.flatMap_cons, ← List.append_assoc] at hd
    have hsymbols := List.Pairwise.sublist (List.sublist_append_left _ _) hd
    simp only [addLibrary, hfree, Option.isSome_none, Bool.false_eq_true, if_false] at h
    split at h
    · next v hs =>
      have hroom := insertAll_eq_ok hs ht
      obtain ⟨w, hw, hindexed, hlist, hcapacity⟩ := insertAll_of_room hi hroom hsymbols
      obtain ⟨-, rfl⟩ := Prod.mk.inj (hw.symm.trans hs)
      refine ih hindexed ?_ (by rw [hlist]; exact hd) h
      rw [← length_toList, hlist, List.length_append, length_toList, hcapacity]
      exact hroom
    · next cause v hs =>
      cases h
      exact insertAll_eq_error hi hsymbols hs

theorem distinct_library : Distinct Signature.library := by decide

/-- In an empty table the library takes the first five places. -/
theorem registerLibrary_empty {capacity : Nat} (hroom : 5 ≤ capacity) :
    ∃ u, (empty capacity).registerLibrary = (.ok 2, u) ∧ u.Indexed ∧
      u.toList = Signature.library ∧ u.capacity = capacity :=
  addLibrary_of_room (indexed_empty capacity) hroom distinct_library

theorem registerLibrary_empty_eq_ok {capacity m : Nat}
    (h : (empty capacity).registerLibrary = (.ok m, u)) : 5 ≤ capacity :=
  addLibrary_eq_ok (indexed_empty capacity) (Nat.zero_le capacity) (by exact distinct_library) h

theorem registerLibrary_empty_eq_error {capacity : Nat} {e : TableError}
    (h : (empty capacity).registerLibrary = (.error e, u)) : ∃ max, e = .capacityExceeded max :=
  addLibrary_eq_error (indexed_empty capacity) (Nat.zero_le capacity) (by exact distinct_library) h

/-- Registered in an empty table, the library is all that the table holds. -/
theorem toList_of_registerLibrary {capacity m : Nat}
    (h : (empty capacity).registerLibrary = (.ok m, u)) : u.toList = Signature.library := by
  obtain ⟨v, hv, -, hlist, -⟩ := registerLibrary_empty (registerLibrary_empty_eq_ok h)
  obtain ⟨-, rfl⟩ := Prod.mk.inj (h.symm.trans hv)
  exact hlist

theorem mem_library {capacity m i : Nat} {x : Symbol}
    (h : (empty capacity).registerLibrary = (.ok m, u)) (hx : u.get? i = some x) :
    x ∈ Signature.library :=
  toList_of_registerLibrary h ▸ mem_toList_iff.mpr ⟨i, hx⟩

end Table
end Ttm.Symbol
