import Ttm.Proofs.Symbol.Library

/-!
Requests to a symbol table. Whatever is asked of it, the table answers as a plain list of its
symbols does, searched from the front.
-/
namespace Ttm.Symbol

/-- What can be asked of a table that changes it. -/
inductive Request
  | insert (x : Symbol)
  | intern (type : DataType) (value : String) (position : Nat)
  | register
  deriving DecidableEq, Repr

/-- The answer to a request, an index or a number of functions, and the table behind it. -/
def Request.run (t : Table) : Request → Except TableError Nat × Table
  | insert x => t.insert x
  | intern type value position =>
    let (result, u) := t.intern type value position
    (result.map (·.index), u)
  | register => t.registerLibrary

namespace Table

/-- What every request keeps. -/
structure Kept (capacity : Nat) (t : Table) : Prop where
  indexed : t.Indexed
  found : t.Found
  within : t.size ≤ capacity
  capacity : t.capacity = capacity

variable {capacity : Nat} {t u : Table} {x : Symbol} {request : Request}

theorem kept_empty (capacity : Nat) : Kept capacity (empty capacity) :=
  ⟨indexed_empty capacity, fun _ _ h => by simp [get?, empty] at h, Nat.zero_le _, rfl⟩

theorem Kept.add (h : Kept capacity t) (hr : t.refusal? x = none) : Kept capacity (t.add x) := by
  have hroom := (refusal?_eq_none.mp hr).1
  refine ⟨h.indexed.add hr, h.found.add hr, ?_, capacity_add.trans h.capacity⟩
  rw [size_add]
  exact h.capacity ▸ hroom

theorem insert_eq_ok {i : Nat} :
    t.insert x = (.ok i, u) ↔ t.refusal? x = none ∧ i = t.size ∧ u = t.add x := by
  unfold insert
  cases t.refusal? x with
  | none => simp [eq_comm]
  | some e => simp

theorem insert_eq_error {e : TableError} :
    t.insert x = (.error e, u) ↔ t.refusal? x = some e ∧ u = t := by
  unfold insert
  cases t.refusal? x with
  | none => simp
  | some e => simp [eq_comm]

theorem intern_eq_ok_iff {type : DataType} {value : String} {position : Nat} {found : Interned} :
    t.intern type value position = (.ok found, u) ↔
      (∃ i, t.lookupLiteral type value = some i ∧ found = ⟨i, false⟩ ∧ u = t) ∨
      t.lookupLiteral type value = none ∧ t.refusal? (.literal position type value) = none ∧
        found = ⟨t.size, true⟩ ∧ u = t.add (.literal position type value) := by
  unfold intern insert
  cases t.lookupLiteral type value with
  | some i => simp [eq_comm]
  | none =>
    cases t.refusal? (.literal position type value) with
    | none => simp [Except.map, eq_comm]
    | some e => simp [Except.map]

/-- A literal that finds no room leaves the table as it is. -/
theorem intern_eq_error_iff {type : DataType} {value : String} {position : Nat} {e : TableError} :
    t.intern type value position = (.error e, u) ↔ t.lookupLiteral type value = none ∧
      t.refusal? (.literal position type value) = some e ∧ u = t := by
  unfold intern insert
  cases t.lookupLiteral type value with
  | some i => simp
  | none =>
    cases t.refusal? (.literal position type value) with
    | none => simp [Except.map]
    | some e => simp [Except.map, eq_comm]

theorem Kept.run (h : Kept capacity t) : Kept capacity (request.run t).2 := by
  cases request with
  | insert x =>
    show Kept capacity (t.insert x).2
    rcases hi : t.insert x with ⟨e | i, u⟩
    · obtain ⟨-, rfl⟩ := insert_eq_error.mp hi
      exact h
    · obtain ⟨hr, -, rfl⟩ := insert_eq_ok.mp hi
      exact h.add hr
  | intern type value position =>
    show Kept capacity (t.intern type value position).2
    rcases hi : t.intern type value position with ⟨e | found, u⟩
    · obtain ⟨-, -, rfl⟩ := intern_eq_error_iff.mp hi
      exact h
    · rcases intern_eq_ok_iff.mp hi with ⟨_, -, -, rfl⟩ | ⟨-, hr, -, rfl⟩
      · exact h
      · exact h.add hr
  | register => exact registerLibrary_induction (fun t x _ h hr => h.add hr) h

theorem run_eq_error {e : TableError} (h : request.run t = (.error e, u))
    (hr : request ≠ .register) : u = t := by
  cases request with
  | insert x => exact (insert_eq_error.mp h).2
  | intern type value position =>
    rcases hi : t.intern type value position with ⟨e' | found, v⟩
    · simp only [Request.run, hi] at h
      cases h
      exact (intern_eq_error_iff.mp hi).2.2
    · simp only [Request.run, hi] at h
      cases h
  | register => exact (hr rfl).elim

end Table
end Ttm.Symbol
