import Mathlib.Data.String.Basic
import Ttm.Log.Event

/-! What the context of an event says about a key. -/
namespace Ttm.Log.Context

variable {c : Context} {key value k : String} {pairs : List (String × String)}

/-- The keys are in order, each with one text. -/
def Ordered (c : Context) : Prop := (c.map Prod.fst).Pairwise (· < ·)

theorem mem_keys_insert (h : k ∈ (c.insert key value).map Prod.fst) :
    k = key ∨ k ∈ c.map Prod.fst := by
  induction c with
  | nil => simpa [insert] using h
  | cons pair rest ih =>
    obtain ⟨k', v⟩ := pair
    rw [insert] at h
    split at h
    · exact List.mem_cons.mp h
    · split at h
      · exact (List.mem_cons.mp h).imp_right (List.mem_cons_of_mem _)
      · rcases List.mem_cons.mp h with h | h
        · exact Or.inr (h ▸ List.mem_cons_self)
        · exact (ih h).imp_right (List.mem_cons_of_mem _)

theorem Ordered.insert (h : c.Ordered) : (c.insert key value).Ordered := by
  induction c with
  | nil => exact List.pairwise_singleton _ _
  | cons pair rest ih =>
    obtain ⟨k', v⟩ := pair
    obtain ⟨hfirst, hrest⟩ := List.pairwise_cons.mp h
    rw [Context.insert]
    split
    · next hlt =>
      refine List.pairwise_cons.mpr ⟨List.forall_mem_cons.mpr ⟨hlt, ?_⟩, h⟩
      exact fun k hk => lt_trans hlt (hfirst k hk)
    · next hlt =>
      split
      · next hkey =>
        subst hkey
        exact h
      · next hne =>
        have hgt : k' < key := lt_of_le_of_ne (not_lt.mp hlt) (Ne.symm hne)
        refine List.pairwise_cons.mpr ⟨fun k hk => ?_, ih hrest⟩
        rcases mem_keys_insert hk with rfl | hk
        · exact hgt
        · exact hfirst k hk

theorem Ordered.insertAll (h : c.Ordered) : (c.insertAll pairs).Ordered := by
  induction pairs generalizing c with
  | nil => exact h
  | cons pair pairs ih => exact ih h.insert

end Ttm.Log.Context
