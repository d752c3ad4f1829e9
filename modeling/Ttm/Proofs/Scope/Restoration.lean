import Mathlib.Data.List.Induction
import Ttm.Proofs.Scope

/-!
Runs of operations on scopes. The depth keeps within its limit and the greatest one is remembered;
what is balanced between entering a scope and leaving it again goes back to the scope before.
-/
namespace Ttm.Scopes

inductive Operation
  | enter (scope : String)
  | exit
  | reset
  deriving DecidableEq, Repr

/-- What an operation did. -/
inductive Effect
  | entered
  | left
  | reset
  | failed (fault : Fault)
  deriving DecidableEq, Repr

/-- What an operation does, and the scopes behind it. -/
def perform (s : Scopes) : Operation → Effect × Scopes
  | .enter scope =>
    match s.enter scope with
    | .ok t => (.entered, t)
    | .error fault => (.failed fault, s)
  | .exit =>
    match s.exit with
    | .ok t => (.left, t)
    | .error fault => (.failed fault, s)
  | .reset => (.reset, s.resetToGlobal)

/-- The scopes behind a run of operations. -/
def run (s : Scopes) (operations : List Operation) : Scopes :=
  operations.foldl (fun s operation => (s.perform operation).2) s

/-- What each operation of a run did. -/
def effects (s : Scopes) : List Operation → List Effect
  | [] => []
  | operation :: rest => (s.perform operation).1 :: (s.perform operation).2.effects rest

/-- Whatever is left was entered before, and whatever is entered is left again. What failed has
entered nothing, so that nothing is left for it. -/
inductive Balanced : List Effect → Prop
  | nil : Balanced []
  | reset {rest : List Effect} (hrest : Balanced rest) : Balanced (.reset :: rest)
  | failed {fault : Fault} {rest : List Effect} (hrest : Balanced rest) :
    Balanced (.failed fault :: rest)
  | matched {inner rest : List Effect} (hinner : Balanced inner) (hrest : Balanced rest) :
    Balanced (.entered :: (inner ++ .left :: rest))

/-- All that an operation can do. -/
inductive Performed (s : Scopes) : Operation → Effect → Scopes → Prop
  | entered {scope : String} {t : Scopes} (h : Entered s scope t) :
    Performed s (.enter scope) .entered t
  | full {scope : String} (h : s.maxDepth ≤ s.depth) :
    Performed s (.enter scope) (.failed (.tooDeep s.maxDepth)) s
  | left {t : Scopes} (h : Left s t) : Performed s .exit .left t
  | outermost (h : s.depth = 0) : Performed s .exit (.failed .underflow) s
  | reset : Performed s .reset .reset s.resetToGlobal

/-- The depths that a run came through account for what its scopes say. -/
structure Reached (maxDepth : Nat) (operations : List Operation) : Prop where
  limit : ((global maxDepth).run operations).maxDepth = maxDepth
  within : ((global maxDepth).run operations).depth ≤ maxDepth
  covered : ∀ before, before <+: operations →
    ((global maxDepth).run before).depth ≤ ((global maxDepth).run operations).deepest
  attained : ∃ before, before <+: operations ∧
    ((global maxDepth).run before).depth = ((global maxDepth).run operations).deepest

variable {s t r : Scopes} {scope : String} {fault : Fault} {operation : Operation} {effect : Effect}
  {maxDepth : Nat} {before after operations : List Operation} {inner rest : List Effect}

theorem fault_of_exit (h : s.exit = .error fault) : fault = .underflow := by
  unfold exit at h
  split at h
  · cases h
    rfl
  · cases h

theorem performed (s : Scopes) (operation : Operation) :
    Performed s operation (s.perform operation).1 (s.perform operation).2 := by
  cases operation with
  | enter scope =>
    rw [perform]
    cases h : s.enter scope with
    | ok t => exact .entered (entered h)
    | error fault =>
      obtain ⟨hfull, rfl⟩ := enter_eq_error h
      exact .full hfull
  | exit =>
    rw [perform]
    cases h : s.exit with
    | ok t => exact .left (left h)
    | error fault =>
      obtain rfl := fault_of_exit h
      exact .outermost (exit_eq_error h)
  | reset => exact .reset

theorem Performed.limit (h : Performed s operation effect t) : t.maxDepth = s.maxDepth := by
  cases h with
  | entered h => exact h.maxDepth
  | left h => exact h.maxDepth
  | full | outermost | reset => rfl

theorem Performed.depth_le (h : Performed s operation effect t) (hs : s.depth ≤ s.maxDepth) :
    t.depth ≤ s.maxDepth := by
  cases h with
  | entered h =>
    rw [h.depth]
    exact h.room
  | left h => exact Nat.le_trans (h.depth ▸ Nat.le_succ _) hs
  | full | outermost | reset => exact hs

theorem Performed.deepest (h : Performed s operation effect t) (hs : s.depth ≤ s.deepest) :
    t.deepest = max s.deepest t.depth := by
  cases h with
  | entered h => exact h.deepest
  | left h =>
    have hdepth := h.depth
    rw [h.deepest]
    omega
  | full | outermost | reset => exact (Nat.max_eq_left hs).symm

theorem run_append : s.run (before ++ after) = (s.run before).run after := List.foldl_append

theorem run_concat : s.run (operations ++ [operation]) = ((s.run operations).perform operation).2 :=
  run_append

/-- The depth behind one more operation is one of those that are accounted for. -/
theorem Reached.step (h : Reached maxDepth operations)
    (hstep : Performed ((global maxDepth).run operations) operation effect
      ((global maxDepth).run (operations ++ [operation]))) :
    Reached maxDepth (operations ++ [operation]) := by
  have hdeepest := hstep.deepest (h.covered operations List.prefix_rfl)
  refine ⟨hstep.limit.trans h.limit, ?_, fun before hbefore => ?_, ?_⟩
  · have hdepth := hstep.depth_le (by rw [h.limit]; exact h.within)
    rwa [h.limit] at hdepth
  · rw [hdeepest]
    rcases List.prefix_concat_iff.mp hbefore with rfl | hbefore
    · exact Nat.le_max_right _ _
    · exact Nat.le_trans (h.covered before hbefore) (Nat.le_max_left _ _)
  · rw [hdeepest]
    rcases Nat.le_total ((global maxDepth).run (operations ++ [operation])).depth
      ((global maxDepth).run operations).deepest with hle | hle
    · obtain ⟨before, hbefore, hdepth⟩ := h.attained
      rw [Nat.max_eq_left hle]
      exact ⟨before, hbefore.trans (List.prefix_append _ _), hdepth⟩
    · rw [Nat.max_eq_right hle]
      exact ⟨_, List.prefix_rfl, rfl⟩

theorem reached (maxDepth : Nat) (operations : List Operation) : Reached maxDepth operations := by
  induction operations using List.reverseRecOn with
  | nil =>
    refine ⟨rfl, Nat.zero_le _, fun before hbefore => ?_, [], List.prefix_rfl, rfl⟩
    rw [List.prefix_nil.mp hbefore]
    exact Nat.le_refl _
  | append_singleton operations operation ih =>
    have hstep := performed ((global maxDepth).run operations) operation
    rw [← run_concat] at hstep
    exact ih.step hstep

theorem exists_of_effects_cons (h : s.effects operations = effect :: rest) :
    ∃ operation after t, operations = operation :: after ∧ Performed s operation effect t ∧
      s.run operations = t.run after ∧ t.effects after = rest := by
  cases operations with
  | nil => cases h
  | cons operation after =>
    obtain ⟨rfl, rfl⟩ := List.cons_eq_cons.mp h
    exact ⟨operation, after, _, rfl, performed s operation, rfl, rfl⟩

theorem exists_of_effects_append (h : s.effects operations = inner ++ rest) :
    ∃ before after, operations = before ++ after ∧ s.effects before = inner ∧
      (s.run before).effects after = rest := by
  induction inner generalizing s operations with
  | nil => exact ⟨[], operations, rfl, rfl, h⟩
  | cons effect inner ih =>
    cases operations with
    | nil => cases h
    | cons operation more =>
      obtain ⟨rfl, hmore⟩ := List.cons_eq_cons.mp h
      obtain ⟨before, after, rfl, rfl, hafter⟩ := ih hmore
      exact ⟨operation :: before, after, rfl, rfl, hafter⟩

/-- What is left behind something balanced is what was entered in front of it. -/
theorem Left.restores (h : Left s t) {outer : Scopes} (hentered : Entered outer scope r)
    (hsaved : s.saved = r.saved) : t.current = outer.current ∧ t.saved = outer.saved :=
  List.cons_eq_cons.mp (h.saved.symm.trans (hsaved.trans hentered.saved))

/-- What is balanced keeps the saved scopes, while the current scope may have been reset. -/
theorem Balanced.saved {effects : List Effect} (h : Balanced effects)
    (heffects : s.effects operations = effects) : (s.run operations).saved = s.saved := by
  induction h generalizing s operations with
  | nil =>
    cases operations with
    | nil => rfl
    | cons => cases heffects
  | reset hrest ih =>
    obtain ⟨operation, after, t, -, hstep, hrun, hafter⟩ := exists_of_effects_cons heffects
    cases hstep
    rw [hrun, ih hafter]
    rfl
  | failed hrest ih =>
    obtain ⟨operation, after, t, -, hstep, hrun, hafter⟩ := exists_of_effects_cons heffects
    rw [hrun]
    cases hstep <;> exact ih hafter
  | matched hinner hrest ihinner ihrest =>
    obtain ⟨_, more, t, -, hstep, hrun, hmore⟩ := exists_of_effects_cons heffects
    obtain ⟨between, behind, rfl, hbetween, hbehind⟩ := exists_of_effects_append hmore
    obtain ⟨_, after, u, -, hstep', hrun', hafter⟩ := exists_of_effects_cons hbehind
    cases hstep with
    | entered hentered =>
    cases hstep' with
    | left hleft =>
    rw [hrun, run_append, hrun', ihrest hafter]
    exact (hleft.restores hentered (ihinner hbetween)).2

theorem exists_exit (h : s.depth ≠ 0) : ∃ t, s.exit = .ok t := by
  cases hexit : s.exit with
  | ok t => exact ⟨t, rfl⟩
  | error fault => exact (h (exit_eq_error hexit)).elim

/-- What fails is entering full scopes and leaving the outermost one. -/
theorem failed_iff : (s.perform operation).1 = .failed fault ↔
    (∃ scope, operation = .enter scope) ∧ s.maxDepth ≤ s.depth ∧ fault = .tooDeep s.maxDepth ∨
      operation = .exit ∧ s.depth = 0 ∧ fault = .underflow := by
  have hstep := performed s operation
  constructor
  · intro h
    rw [h] at hstep
    generalize (s.perform operation).2 = t at hstep
    cases hstep with
    | full hfull => exact Or.inl ⟨⟨_, rfl⟩, hfull, rfl⟩
    | outermost hdepth => exact Or.inr ⟨rfl, hdepth, rfl⟩
  · generalize (s.perform operation).1 = effect at hstep ⊢
    generalize (s.perform operation).2 = t at hstep
    rintro (⟨⟨scope, rfl⟩, hfull, rfl⟩ | ⟨rfl, hdepth, rfl⟩)
    · cases hstep with
      | entered h => exact absurd h.room (Nat.not_lt_of_le hfull)
      | full => rfl
    · cases hstep with
      | left h => exact absurd (h.depth.symm.trans hdepth) (Nat.succ_ne_zero _)
      | outermost => rfl

theorem unchanged_of_failed (h : (s.perform operation).1 = .failed fault) :
    (s.perform operation).2 = s := by
  have hstep := performed s operation
  rw [h] at hstep
  generalize (s.perform operation).2 = t at hstep
  cases hstep <;> rfl

/-- A scope that is entered is left, behind something balanced, for the one it was entered from. -/
theorem exists_restored (h : s.enter scope = .ok t) (hbalanced : Balanced (t.effects operations)) :
    ∃ u, (t.run operations).exit = .ok u ∧ u.current = s.current ∧ u.depth = s.depth ∧
      u.saved = s.saved := by
  have hentered := entered h
  have hsaved := hbalanced.saved rfl
  have hdepth : (t.run operations).depth ≠ 0 := by
    rw [Scopes.depth_eq, hsaved, hentered.saved]
    exact Nat.succ_ne_zero _
  obtain ⟨u, hexit⟩ := exists_exit hdepth
  obtain ⟨hcurrent, hrest⟩ := (left hexit).restores hentered hsaved
  exact ⟨u, hexit, hcurrent, by rw [u.depth_eq, hrest, s.depth_eq], hrest⟩

/-- Scopes of a limited depth, in front of one more operation. -/
structure Restoring (maxDepth : Nat) (s : Scopes) : Prop where
  failed : ∀ operation fault, (s.perform operation).1 = .failed fault ↔
    (∃ scope, operation = .enter scope) ∧ s.depth = maxDepth ∧ fault = .tooDeep maxDepth ∨
      operation = .exit ∧ s.depth = 0 ∧ fault = .underflow
  unchanged : ∀ operation fault, (s.perform operation).1 = .failed fault →
    (s.perform operation).2 = s
  restored : ∀ scope t between, s.enter scope = .ok t → Balanced (t.effects between) →
    ∃ u, (t.run between).exit = .ok u ∧ u.current = s.current ∧ u.depth = s.depth ∧
      u.saved = s.saved

/-- Whatever was done to scopes, their depth is within the limit and the deepest one is remembered;
what fails changes nothing, and leaving undoes entering across all that is balanced. -/
theorem run_restoring (maxDepth : Nat) (operations : List Operation) :
    Reached maxDepth operations ∧ Restoring maxDepth ((global maxDepth).run operations) := by
  have hreached := reached maxDepth operations
  refine ⟨hreached, ?_, fun _ _ => unchanged_of_failed, fun _ _ _ => exists_restored⟩
  intro operation fault
  have hfull : maxDepth ≤ ((global maxDepth).run operations).depth ↔
      ((global maxDepth).run operations).depth = maxDepth :=
    ⟨Nat.le_antisymm hreached.within, Nat.le_of_eq ∘ Eq.symm⟩
  rw [failed_iff, hreached.limit, hfull]

/-- With room for two, a third scope is not entered, and the reset inside is undone by leaving. -/
example : ((global 2).run [.enter "f", .enter "g", .enter "h", .reset, .exit]).current = "f" := by
  decide

end Ttm.Scopes
