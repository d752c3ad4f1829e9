import Mathlib.Data.String.Basic
import Ttm.Files.Path

/-! The order of paths is total, and paths that are equal in it are the same path. -/
namespace Ttm.Files

open Std (LawfulEqCmp OrientedCmp ReflCmp TransCmp)

/-- Steps are in the order of their forms, names in that of their texts. -/
theorem Step.compare_eq :
    Step.compare = compareLex (compareOn Step.rank) (compareOn Path.stepText) := by
  funext a b
  cases a <;> cases b <;> rfl

instance : TransCmp Step.compare := by
  rw [Step.compare_eq]
  infer_instance

theorem Step.eq_of_compare {a b : Step} (h : a.compare b = .eq) : a = b := by
  cases a with
  | name s =>
    cases b with
    | name t =>
      have htext : Ord.compare s t = .eq := h
      exact congrArg Step.name (LawfulEqCmp.eq_of_compare htext)
    | _ => cases h
  | _ => cases b <;> first | rfl | cases h

instance : LawfulEqCmp Step.compare where
  eq_of_compare := Step.eq_of_compare

namespace Path

variable {p q r : String}

theorem compareSteps_eq : compareSteps = List.compareLex Step.compare := by
  funext as bs
  induction as generalizing bs with
  | nil => cases bs <;> rfl
  | cons a as ih =>
    cases bs with
    | nil => rfl
    | cons b bs => rw [compareSteps, List.compareLex_cons_cons, ih]

/-- Paths are in the order of their steps. -/
theorem compare_eq : compare p q = List.compareLex Step.compare (steps p) (steps q) := by
  rw [compare, compareSteps_eq]
  split
  · next h =>
    have hself : List.compareLex Step.compare (steps q) (steps q) = .eq := ReflCmp.compare_self
    rw [h, hself]
  · rfl

instance : TransCmp compare where
  eq_swap := by
    intro p q
    rw [compare_eq, compare_eq]
    exact OrientedCmp.eq_swap
  isLE_trans := by
    intro p q r hpq hqr
    rw [compare_eq] at hpq hqr ⊢
    exact TransCmp.isLE_trans hpq hqr

/-- Other spellings of a path are those that are not told apart. -/
theorem same_iff : same p q ↔ compare p q = .eq := by
  rw [compare_eq, LawfulEqCmp.compare_eq_iff_eq, same, Bool.or_eq_true, beq_iff_eq, beq_iff_eq]
  exact ⟨fun h => h.elim (congrArg steps) id, Or.inr⟩

theorem same_self : same p p := by simp [same]

theorem same_congr (h : compare q r = .eq) : same p q = same p r := by
  rw [Bool.eq_iff_iff, same_iff, same_iff, TransCmp.congr_right h]

end Path
end Ttm.Files
