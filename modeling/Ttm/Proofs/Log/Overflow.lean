import Ttm.Proofs.Log.Collector

/-!
When a collector says that a file had too many events. The bound over all files comes first: where
it is no higher than the bound for a single file, events are left out and nothing says so.
-/
namespace Ttm.Log
namespace Collector

open FileEvents (marked overflow)

variable {c : Collector} {limits : Limits} {path : String} {e : Event} {n : Nat}
  {taken : List (String × Event)}

theorem eventsAt_replicate : eventsAt path (List.replicate n (path, e)) = List.replicate n e := by
  have hsame : ∀ x ∈ List.replicate n (path, e), Files.Path.same path x.1 := fun x hx =>
    (List.mem_replicate.mp hx).2 ▸ Files.Path.same_self
  rw [eventsAt, List.filter_eq_self.mpr hsame, List.map_replicate]

/-- A file that holds more than its bound is in a collector that has more room than that. -/
theorem Keeps.lt_of_marked (h : c.Keeps limits taken) {events : List Event}
    (hevents : c.eventsOf path = marked limits.maxLogEventsPerFile events)
    (hover : limits.maxLogEventsPerFile < events.length) :
    limits.maxLogEventsPerFile < limits.maxErrorCollection := by
  have hlength : (c.eventsOf path).length ≤ c.total := c.total_eq ▸ length_eventsIn_le
  have hwithin := h.within
  rw [hevents, FileEvents.length_marked] at hlength
  omega

/-- A collector with more room than the bound for a file takes enough of a single file to run
over. -/
theorem eventsOf_replicate (hlimits : limits.maxLogEventsPerFile < limits.maxErrorCollection) :
    (recordAll limits (List.replicate (limits.maxLogEventsPerFile + 1) (path, e))).eventsOf path =
      marked limits.maxLogEventsPerFile (List.replicate (limits.maxLogEventsPerFile + 1) e) := by
  obtain ⟨taken, behind, heq, h, hend⟩ :=
    exists_keeps limits (List.replicate (limits.maxLogEventsPerFile + 1) (path, e))
  have hlength := congrArg List.length heq
  rw [List.length_replicate, List.length_append] at hlength
  have hbehind : behind = [] := by
    refine hend.elim id fun hfull => List.eq_nil_of_length_eq_zero ?_
    have htotal := h.total_le
    omega
  rw [h.events, ← eventsAt_replicate, heq, hbehind, List.append_nil]

/-- A collector takes events until it is full. Of those that it takes it holds the first ones of
each path, and says where that are not all. It can come to say so only with more room than the bound
for a file; without, it holds the first events that it is given, and nothing tells of the others. -/
theorem recordAll_marked (limits : Limits) :
    (∀ given, ∃ taken behind, given = taken ++ behind ∧
      (behind = [] ∨ (recordAll limits given).total = limits.maxErrorCollection) ∧
      ∀ path, (recordAll limits given).eventsOf path =
        marked limits.maxLogEventsPerFile (eventsAt path taken)) ∧
    ((∃ given path, limits.maxLogEventsPerFile < (eventsAt path given).length ∧
      (recordAll limits given).eventsOf path =
        marked limits.maxLogEventsPerFile (eventsAt path given)) ↔
      limits.maxLogEventsPerFile < limits.maxErrorCollection) ∧
    (limits.maxErrorCollection ≤ limits.maxLogEventsPerFile → ∀ given path,
      (recordAll limits given).eventsOf path =
        eventsAt path (given.take limits.maxErrorCollection)) := by
  refine ⟨fun given => ?_, ⟨?_, fun hlimits => ?_⟩, fun hlimits given path => ?_⟩
  · obtain ⟨taken, behind, heq, h, hend⟩ := exists_keeps limits given
    exact ⟨taken, behind, heq, hend, h.events⟩
  · rintro ⟨given, path, hover, hevents⟩
    obtain ⟨taken, behind, -, h, -⟩ := exists_keeps limits given
    exact h.lt_of_marked hevents hover
  · refine ⟨List.replicate (limits.maxLogEventsPerFile + 1) ("", .info ""), "", ?_, ?_⟩
    · rw [eventsAt_replicate, List.length_replicate]
      exact Nat.lt_succ_self _
    · rw [eventsOf_replicate hlimits, eventsAt_replicate]
  · exact (keeps_take hlimits).events_of_le hlimits

/-- In a development build both bounds are 1000: of 1001 events the last one is left out. -/
theorem recordAll_marked_development :
    Limits.development.maxErrorCollection ≤ Limits.development.maxLogEventsPerFile ∧
      (recordAll .development (List.replicate 1001 ("a.ttm", .info "n"))).eventsOf "a.ttm" =
        List.replicate 1000 (.info "n") ∧
      overflow 1000 ∉ List.replicate 1000 (.info "n") := by
  have hlimits : Limits.development.maxErrorCollection ≤ Limits.development.maxLogEventsPerFile :=
    by decide
  refine ⟨hlimits, ?_, fun hmem => absurd (List.eq_of_mem_replicate hmem) (by decide)⟩
  rw [(recordAll_marked .development).2.2 hlimits, List.take_replicate, eventsAt_replicate]
  rfl

end Collector
end Ttm.Log
