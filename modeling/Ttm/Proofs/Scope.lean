import Ttm.Scope

/-! How entering and leaving move a stack of scopes. -/
namespace Ttm.Scopes

variable {s t : Scopes} {scope : String} {fault : Fault}

/-- What entering a scope changes, where there is room for one more. -/
structure Entered (s : Scopes) (scope : String) (t : Scopes) : Prop where
  room : s.depth < s.maxDepth
  current : t.current = scope
  saved : t.saved = s.current :: s.saved
  depth : t.depth = s.depth + 1
  maxDepth : t.maxDepth = s.maxDepth
  deepest : t.deepest = max s.deepest t.depth

/-- What leaving a scope changes, where one was entered before. -/
structure Left (s t : Scopes) : Prop where
  saved : s.saved = t.current :: t.saved
  depth : s.depth = t.depth + 1
  maxDepth : t.maxDepth = s.maxDepth
  deepest : t.deepest = s.deepest

theorem entered (h : s.enter scope = .ok t) : Entered s scope t := by
  unfold enter at h
  split at h
  · cases h
  · next hroom =>
    cases h
    exact ⟨Nat.lt_of_not_le hroom, rfl, rfl, rfl, rfl, rfl⟩

theorem enter_eq_error (h : s.enter scope = .error fault) :
    s.maxDepth ≤ s.depth ∧ fault = .tooDeep s.maxDepth := by
  unfold enter at h
  split at h
  · next hfull =>
    cases h
    exact ⟨hfull, rfl⟩
  · cases h

theorem left (h : s.exit = .ok t) : Left s t := by
  unfold exit at h
  split at h
  · cases h
  · next hsaved =>
    cases h
    refine ⟨hsaved, ?_, rfl, rfl⟩
    have hdepth := s.depth_eq
    rw [hsaved, List.length_cons] at hdepth
    show s.depth = s.depth - 1 + 1
    omega

theorem exit_eq_error (h : s.exit = .error fault) : s.depth = 0 := by
  unfold exit at h
  split at h
  · next hsaved => rw [s.depth_eq, hsaved, List.length_nil]
  · cases h

end Ttm.Scopes
