import Mathlib.Data.List.DropRight
import Ttm.Log.Memory

/-! A memory holds the last events, as many as it has room for. -/
namespace Ttm.Log.Memory

variable {m : Memory} {e : Event} {events : List Event} {n : Nat}

/-- A memory with room for `n` events that has taken these. -/
structure Holds (m : Memory) (n : Nat) (events : List Event) : Prop where
  toList : m.toList = events.rtake n
  size : m.size = m.toList.length
  capacity : m.capacity = n

theorem toList_dropOldest : m.dropOldest.toList = m.toList.tail := by
  unfold dropOldest Memory.toList
  cases m.front <;> simp

theorem capacity_dropOldest : m.dropOldest.capacity = m.capacity := by
  unfold dropOldest
  split <;> rfl

theorem size_dropOldest : m.dropOldest.size = m.size - 1 := by
  unfold dropOldest
  split <;> rfl

theorem toList_push : (m.push e).toList =
    (if m.size < m.capacity then m.toList else m.toList.tail) ++ [e] := by
  rw [← toList_dropOldest, ← apply_ite Memory.toList]
  simp [push, Memory.toList]

theorem size_push :
    (m.push e).size = if m.size < m.capacity then m.size + 1 else m.size - 1 + 1 := by
  rw [← size_dropOldest, ← apply_ite (· + 1), ← apply_ite Memory.size]
  rfl

theorem capacity_push : (m.push e).capacity = m.capacity := by
  unfold push
  split
  · rfl
  · exact capacity_dropOldest

theorem length_rtake : (events.rtake n).length = min events.length n := by
  rw [List.rtake, List.length_drop]
  omega

/-- One event more is remembered, and the oldest one forgotten where there is no room. -/
theorem Holds.push (h : m.Holds n events) (hn : 0 < n) : (m.push e).Holds n (events ++ [e]) := by
  have hsize : m.size = min events.length n := by rw [h.size, h.toList, length_rtake]
  have hlist : (m.push e).toList = (events ++ [e]).rtake n := by
    rw [toList_push, h.capacity, h.toList, List.rtake, List.rtake, List.length_append,
      List.length_singleton]
    split
    · next hroom =>
      have hdrop : events.length - n = 0 ∧ events.length + 1 - n = 0 := by omega
      rw [hdrop.1, hdrop.2, List.drop_zero, List.drop_zero]
    · next hfull =>
      have hdrop : events.length + 1 - n = events.length - n + 1 := by omega
      rw [List.tail_drop, hdrop, List.drop_append_of_le_length (by omega)]
  refine ⟨hlist, ?_, capacity_push.trans h.capacity⟩
  rw [hlist, length_rtake, size_push, h.capacity, hsize, List.length_append, List.length_singleton]
  split <;> omega

end Ttm.Log.Memory
