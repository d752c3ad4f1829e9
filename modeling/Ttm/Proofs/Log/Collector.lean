import Mathlib.Data.List.Induction
import Ttm.Log.Collector
import Ttm.Proofs.Files.Path

/-! What a collector holds: events by their paths, the first ones it is given. -/
namespace Ttm.Log

open Files (Path.compare Path.same Path.same_congr Path.same_iff Path.same_self)
open Std (OrientedCmp ReflCmp TransCmp)

namespace FileEvents

/-- The events of a file that is given one more. -/
def grown (limit : Nat) (events : List Event) (e : Event) : List Event :=
  if events.length < limit then events ++ [e]
  else if events.length = limit then events ++ [overflow limit]
  else events

/-- What a file holds of its events: the first ones, and behind them, where there are more, the
event that says so. -/
def marked (limit : Nat) (events : List Event) : List Event :=
  events.take limit ++ if limit < events.length then [overflow limit] else []

variable {f : FileEvents} {files : List FileEvents} {number : FileEvents → Nat} {limit : Nat}
  {e : Event} {events : List Event}

theorem addUp_cons : addUp (f :: files) number = number f + addUp files number := rfl

theorem le_addUp (number : FileEvents → Nat) (h : f ∈ files) : number f ≤ addUp files number := by
  induction files with
  | nil => cases h
  | cons g files ih =>
    rw [addUp_cons]
    rcases List.mem_cons.mp h with rfl | h
    · exact Nat.le_add_right _ _
    · exact Nat.le_add_left_of_le (ih h)

theorem length_events : f.events.length = f.latest.length := List.length_reverse

theorem path_add : (f.add limit e).path = f.path := by
  unfold add
  split
  · rfl
  · split <;> rfl

theorem add_of_lt (h : f.latest.length < limit) :
    f.add limit e = { f with latest := e :: f.latest } := by
  rw [add, if_pos h]

theorem events_add : (f.add limit e).events = grown limit f.events e := by
  unfold add grown
  rw [length_events]
  split
  · exact List.reverse_cons
  · split
    · exact List.reverse_cons
    · rfl

theorem length_add_le : (f.add limit e).latest.length ≤ f.latest.length + 1 := by
  rw [← length_events, events_add, ← length_events, grown]
  split
  · rw [List.length_append, List.length_singleton]
  · split
    · rw [List.length_append, List.length_singleton]
    · exact Nat.le_succ _

theorem lt_length_grown (h : limit ≤ events.length) : limit < (grown limit events e).length := by
  rw [grown, if_neg (Nat.not_lt_of_le h)]
  split
  · next heq =>
    rw [List.length_append, heq]
    exact Nat.lt_succ_self limit
  · next hne => exact Nat.lt_of_le_of_ne h (Ne.symm hne)

/-- Nothing is cut off from as many events as there is room for. -/
theorem marked_of_le (h : events.length ≤ limit) : marked limit events = events := by
  rw [marked, List.take_of_length_le h, if_neg (Nat.not_lt_of_le h), List.append_nil]

theorem length_marked : (marked limit events).length = min events.length (limit + 1) := by
  rw [marked, List.length_append, List.length_take]
  split
  · rw [List.length_singleton]
    omega
  · rw [List.length_nil]
    omega

theorem grown_marked : grown limit (marked limit events) e = marked limit (events ++ [e]) := by
  rcases Nat.lt_trichotomy events.length limit with hlt | heq | hgt
  · have hfits : (events ++ [e]).length ≤ limit := by
      rw [List.length_append, List.length_singleton]
      exact hlt
    rw [marked_of_le hlt.le, marked_of_le hfits, grown, if_pos hlt]
  · have hover : limit < (events ++ [e]).length := by
      rw [List.length_append, List.length_singleton, heq]
      exact Nat.lt_succ_self limit
    rw [marked_of_le heq.le, grown, if_neg heq.not_lt, if_pos heq, marked, if_pos hover,
      List.take_left' heq]
  · have hover : limit < (events ++ [e]).length := by
      rw [List.length_append]
      exact Nat.lt_add_right _ hgt
    have hlength : (marked limit events).length = limit + 1 := by
      rw [length_marked]
      omega
    rw [grown, if_neg (by omega), if_neg (by omega), marked, marked, if_pos hgt, if_pos hover,
      List.take_append_of_le_length hgt.le]

end FileEvents

namespace Collector

open FileEvents (addUp addUp_cons grown grown_marked marked marked_of_le)

/-- Files are in the order of their paths, each with one entry. -/
def Ordered (files : List FileEvents) : Prop :=
  files.Pairwise fun f g => Path.compare f.path g.path = .lt

/-- The events of a path. -/
def eventsIn (files : List FileEvents) (path : String) : List Event :=
  (files.find? fun f => Path.same path f.path).elim [] (·.events)

/-- The events of a path among those that are given. -/
def eventsAt (path : String) (given : List (String × Event)) : List Event :=
  (given.filter (Path.same path ·.1)).map (·.2)

/-- A collector that has been given events with their paths. -/
def recordAll (limits : Limits) (given : List (String × Event)) : Collector :=
  given.foldl (fun c (path, e) => c.record limits path e) .empty

variable {c : Collector} {limits : Limits} {path p : String} {e : Event} {f : FileEvents}
  {files : List FileEvents} {limit : Nat} {given taken : List (String × Event)}

theorem recordAll_concat : recordAll limits (given ++ [(path, e)]) =
    (recordAll limits given).record limits path e := List.foldl_append

/-- What is taken depends on the files alone. -/
theorem files_record_congr {d : Collector} (h : c.files = d.files) :
    (c.record limits path e).files = (d.record limits path e).files := by
  have htotal : c.total = d.total := by rw [c.total_eq, d.total_eq, h]
  unfold Collector.record
  rw [htotal]
  split
  · exact h
  · exact congrArg (addTo limits.maxLogEventsPerFile path e) h

theorem addTo_cons : addTo limit path e (f :: files) =
    match Path.compare path f.path with
    | .lt => FileEvents.add ⟨path, []⟩ limit e :: f :: files
    | .eq => f.add limit e :: files
    | .gt => f :: addTo limit path e files := rfl

theorem mem_addTo {P : String → Prop} (hpath : P path) (hfiles : ∀ g ∈ files, P g.path) :
    ∀ g ∈ addTo limit path e files, P g.path := by
  induction files with
  | nil => simpa [addTo, FileEvents.path_add] using hpath
  | cons f files ih =>
    obtain ⟨hf, hrest⟩ := List.forall_mem_cons.mp hfiles
    rw [addTo_cons]
    split
    · exact List.forall_mem_cons.mpr ⟨by rwa [FileEvents.path_add], hfiles⟩
    · exact List.forall_mem_cons.mpr ⟨by rwa [FileEvents.path_add], hrest⟩
    · exact List.forall_mem_cons.mpr ⟨hf, ih hrest⟩

theorem Ordered.addTo (h : Ordered files) : Ordered (addTo limit path e files) := by
  induction files with
  | nil => exact List.pairwise_singleton _ _
  | cons f files ih =>
    obtain ⟨hf, hrest⟩ := List.pairwise_cons.mp h
    rw [addTo_cons]
    split
    · next hlt =>
      refine List.pairwise_cons.mpr ⟨?_, h⟩
      rw [FileEvents.path_add]
      exact List.forall_mem_cons.mpr ⟨hlt, fun g hg => TransCmp.lt_trans hlt (hf g hg)⟩
    · refine List.pairwise_cons.mpr ⟨?_, hrest⟩
      rwa [FileEvents.path_add]
    · next hgt =>
      refine List.pairwise_cons.mpr ⟨?_, ih hrest⟩
      exact mem_addTo (P := fun q => Path.compare f.path q = .lt) (OrientedCmp.lt_of_gt hgt) hf

theorem eventsIn_cons : eventsIn (f :: files) p =
    if Path.same p f.path then f.events else eventsIn files p := by
  rw [eventsIn, List.find?_cons]
  cases Path.same p f.path <;> rfl

/-- A path in front of all files has no events. -/
theorem eventsIn_of_lt (h : ∀ f ∈ files, Path.compare p f.path = .lt) : eventsIn files p = [] := by
  have hnone : (files.find? fun f => Path.same p f.path) = none := by
    refine List.find?_eq_none.mpr fun f hf => ?_
    rw [Path.same_iff, h f hf]
    exact nofun
  rw [eventsIn, hnone]
  rfl

/-- An event changes the events of its path alone. -/
theorem eventsIn_addTo (h : Ordered files) :
    eventsIn (addTo limit path e files) p =
      if Path.same p path then grown limit (eventsIn files p) e else eventsIn files p := by
  induction files with
  | nil =>
    rw [addTo, eventsIn_cons, FileEvents.path_add, FileEvents.events_add]
    rfl
  | cons f files ih =>
    obtain ⟨hf, hrest⟩ := List.pairwise_cons.mp h
    rw [addTo_cons]
    split
    · next hlt =>
      rw [eventsIn_cons, FileEvents.path_add, FileEvents.events_add]
      split
      · next hsame =>
        -- no entry of the path is behind the place where it begins
        have heq := Path.same_iff.mp hsame
        have hnone : eventsIn (f :: files) p = [] := by
          refine eventsIn_of_lt (List.forall_mem_cons.mpr ⟨?_, fun g hg => ?_⟩)
          · rw [TransCmp.congr_left heq, hlt]
          · rw [TransCmp.congr_left heq, TransCmp.lt_trans hlt (hf g hg)]
        rw [hnone]
        rfl
      · rfl
    · next heq =>
      rw [eventsIn_cons, eventsIn_cons, FileEvents.path_add, FileEvents.events_add,
        Path.same_congr heq]
      split <;> rfl
    · next hgt =>
      rw [eventsIn_cons, eventsIn_cons, ih hrest]
      by_cases hsame : Path.same p f.path
      · have hother : ¬ Path.same p path := by
          intro hpath
          rw [Path.same_iff] at hsame hpath
          rw [TransCmp.congr_left hpath, hgt] at hsame
          cases hsame
        rw [if_pos hsame, if_pos hsame, if_neg hother]
      · rw [if_neg hsame, if_neg hsame]

theorem length_eventsIn_le : (eventsIn files p).length ≤ addUp files (·.latest.length) := by
  rw [eventsIn]
  cases hf : files.find? fun f => Path.same p f.path with
  | none => exact Nat.zero_le _
  | some f =>
    rw [Option.elim_some, FileEvents.length_events]
    exact FileEvents.le_addUp (·.latest.length) (List.mem_of_find?_eq_some hf)

theorem addUp_addTo_le : addUp (addTo limit path e files) (·.latest.length) ≤
    addUp files (·.latest.length) + 1 := by
  induction files with
  | nil => exact FileEvents.length_add_le
  | cons f files ih =>
    have hadd := @FileEvents.length_add_le f limit e
    have hnew := @FileEvents.length_add_le ⟨path, []⟩ limit e
    rw [addTo_cons]
    split
    · simp only [addUp_cons, List.length_nil] at hnew ⊢
      omega
    · simp only [addUp_cons]
      omega
    · simp only [addUp_cons]
      omega

/-- Where its file has room, an event counts for itself. -/
theorem addUp_addTo (q : Event → Bool) (h : Ordered files)
    (hroom : (eventsIn files path).length < limit) :
    addUp (addTo limit path e files) (·.latest.countP q) =
      addUp files (·.latest.countP q) + if q e then 1 else 0 := by
  have hlimit : 0 < limit := Nat.zero_lt_of_lt hroom
  have hnew : FileEvents.add ⟨path, []⟩ limit e = ⟨path, [e]⟩ := FileEvents.add_of_lt hlimit
  induction files with
  | nil =>
    rw [addTo, hnew, addUp_cons]
    simp [addUp]
  | cons f files ih =>
    obtain ⟨hf, hrest⟩ := List.pairwise_cons.mp h
    rw [eventsIn_cons] at hroom
    rw [addTo_cons]
    split
    · rw [hnew, addUp_cons, addUp_cons, List.countP_singleton]
      omega
    · next heq =>
      rw [if_pos (Path.same_iff.mpr heq), FileEvents.length_events] at hroom
      rw [FileEvents.add_of_lt hroom, addUp_cons, addUp_cons, List.countP_cons]
      omega
    · next hgt =>
      have hother : ¬ Path.same path f.path := by simp [Path.same_iff, hgt]
      rw [if_neg hother] at hroom
      rw [addUp_cons, addUp_cons, ih hrest hroom]
      omega

/-- A file of a path that is given one more event was there before, or begins with it. -/
theorem path_of_mem_addTo (h : Ordered files) (hf : f ∈ addTo limit path e files) :
    (∃ g ∈ files, f.path = g.path) ∨
      f.path = path ∧ ∀ g ∈ files, ¬ Path.same path g.path := by
  induction files with
  | nil =>
    rw [addTo, List.mem_singleton] at hf
    exact Or.inr ⟨hf ▸ FileEvents.path_add, by simp⟩
  | cons g files ih =>
    obtain ⟨hg, hrest⟩ := List.pairwise_cons.mp h
    rw [addTo_cons] at hf
    split at hf
    · next hlt =>
      rcases List.mem_cons.mp hf with rfl | hf
      · have hfirst : ∀ x ∈ g :: files, Path.compare path x.path = .lt :=
          List.forall_mem_cons.mpr ⟨hlt, fun x hx => TransCmp.lt_trans hlt (hg x hx)⟩
        refine Or.inr ⟨FileEvents.path_add, fun x hx hsame => ?_⟩
        rw [Path.same_iff, hfirst x hx] at hsame
        cases hsame
      · exact Or.inl ⟨f, hf, rfl⟩
    · rcases List.mem_cons.mp hf with rfl | hf
      · exact Or.inl ⟨g, List.mem_cons_self, FileEvents.path_add⟩
      · exact Or.inl ⟨f, List.mem_cons_of_mem _ hf, rfl⟩
    · next hgt =>
      rcases List.mem_cons.mp hf with rfl | hf
      · exact Or.inl ⟨f, List.mem_cons_self, rfl⟩
      · rcases ih hrest hf with ⟨x, hx, hpath⟩ | ⟨hpath, hother⟩
        · exact Or.inl ⟨x, List.mem_cons_of_mem _ hx, hpath⟩
        · refine Or.inr ⟨hpath, List.forall_mem_cons.mpr ⟨?_, hother⟩⟩
          simp [Path.same_iff, hgt]

theorem eventsAt_concat : eventsAt p (given ++ [(path, e)]) =
    if Path.same p path then eventsAt p given ++ [e] else eventsAt p given := by
  rw [eventsAt, List.filter_append, List.map_append, List.filter_cons, List.filter_nil]
  split
  · rfl
  · exact List.append_nil _

theorem length_eventsAt_le : (eventsAt p given).length ≤ given.length := by
  rw [eventsAt, List.length_map]
  exact List.length_filter_le _ _

/-- A collector that has taken these events. -/
structure Keeps (c : Collector) (limits : Limits) (taken : List (String × Event)) : Prop where
  ordered : Ordered c.files
  events : ∀ path, c.eventsOf path = marked limits.maxLogEventsPerFile (eventsAt path taken)
  /-- A path keeps the spelling that it came with first. -/
  spelled : ∀ f ∈ c.files, (taken.find? (Path.same f.path ·.1)).map (·.1) = some f.path
  /-- Every event counts, unless a file has run out of room. -/
  counted : (∀ q : Event → Bool, addUp c.files (·.latest.countP q) = taken.countP (q ·.2)) ∨
    limits.maxLogEventsPerFile < c.total
  total_le : c.total ≤ taken.length
  within : c.total ≤ limits.maxErrorCollection

theorem keeps_empty : Collector.empty.Keeps limits [] where
  ordered := .nil
  events path := by simp [eventsOf, file?, empty, eventsAt, marked]
  spelled f hf := by cases hf
  counted := Or.inl fun _ => rfl
  total_le := Nat.le_refl _
  within := Nat.zero_le _

theorem eventsOf_eq : c.eventsOf p = eventsIn c.files p := rfl

theorem Keeps.exists_file (h : c.Keeps limits taken) (he : (p, e) ∈ taken) :
    ∃ f ∈ c.files, Path.same p f.path := by
  have hmem : e ∈ eventsAt p taken :=
    List.mem_map.mpr ⟨(p, e), List.mem_filter.mpr ⟨he, Path.same_self⟩, rfl⟩
  have hlength : 0 < (c.eventsOf p).length := by
    rw [h.events, FileEvents.length_marked]
    exact Nat.lt_min.mpr ⟨List.length_pos_of_mem hmem, Nat.succ_pos _⟩
  rw [eventsOf, file?] at hlength
  cases hf : c.files.find? fun f => Path.same p f.path with
  | none => simp [hf] at hlength
  | some f =>
    have hsame := List.find?_some hf
    exact ⟨f, List.mem_of_find?_eq_some hf, hsame⟩

theorem record_of_full (h : limits.maxErrorCollection ≤ c.total) : c.record limits path e = c :=
  if_pos h

theorem Keeps.spelled_addTo (h : c.Keeps limits taken) (hf : f ∈ addTo limit path e c.files) :
    ((taken ++ [(path, e)]).find? (Path.same f.path ·.1)).map (·.1) = some f.path := by
  rw [List.find?_append]
  rcases path_of_mem_addTo h.ordered hf with ⟨g, hg, hpath⟩ | ⟨hpath, hother⟩
  · have hspelled := h.spelled g hg
    obtain ⟨x, hx, hfirst⟩ := Option.map_eq_some_iff.mp hspelled
    rw [hpath, hx]
    exact congrArg some hfirst
  · have hnone : taken.find? (Path.same f.path ·.1) = none := by
      refine List.find?_eq_none.mpr fun x hx hsame => ?_
      obtain ⟨g, hg, hxg⟩ := h.exists_file hx
      rw [hpath, Path.same_iff] at hsame
      rw [Path.same_iff] at hxg
      exact hother g hg (Path.same_iff.mpr (TransCmp.eq_trans hsame hxg))
    have hself : [(path, e)].find? (Path.same f.path ·.1) = some (path, e) :=
      List.find?_cons_of_pos (hpath ▸ Path.same_self)
    rw [hnone, hself, hpath]
    rfl

theorem Keeps.counted_addTo (h : c.Keeps limits taken) :
    (∀ q : Event → Bool,
      addUp (addTo limits.maxLogEventsPerFile path e c.files) (·.latest.countP q) =
        (taken ++ [(path, e)]).countP (q ·.2)) ∨
      limits.maxLogEventsPerFile <
        addUp (addTo limits.maxLogEventsPerFile path e c.files) (·.latest.length) := by
  rcases Nat.lt_or_ge (eventsIn c.files path).length limits.maxLogEventsPerFile with hroom | hfull
  · refine h.counted.imp (fun hcounted q => ?_) fun htotal => ?_
    · rw [addUp_addTo q h.ordered hroom, hcounted, List.countP_append, List.countP_singleton]
    · have hcount := addUp_addTo (e := e) (fun _ => true) h.ordered hroom
      simp only [List.countP_true, if_true, ← c.total_eq] at hcount
      omega
  · refine Or.inr (Nat.lt_of_lt_of_le (FileEvents.lt_length_grown (e := e) hfull) ?_)
    have hlength := @length_eventsIn_le path
      (addTo limits.maxLogEventsPerFile path e c.files)
    rwa [eventsIn_addTo h.ordered, if_pos Path.same_self] at hlength

theorem Keeps.record (h : c.Keeps limits taken) (hroom : c.total < limits.maxErrorCollection) :
    (c.record limits path e).Keeps limits (taken ++ [(path, e)]) := by
  have htotal : addUp (addTo limits.maxLogEventsPerFile path e c.files) (·.latest.length) ≤
      c.total + 1 := c.total_eq ▸ addUp_addTo_le
  rw [Collector.record, if_neg (Nat.not_le_of_lt hroom)]
  refine ⟨h.ordered.addTo, fun p => ?_, fun f hf => h.spelled_addTo hf, h.counted_addTo, ?_,
    htotal.trans hroom⟩
  · show eventsIn _ p = _
    rw [eventsIn_addTo h.ordered, eventsAt_concat, ← eventsOf_eq, h.events, grown_marked]
    split <;> rfl
  · rw [List.length_append, List.length_singleton]
    exact htotal.trans (Nat.succ_le_succ h.total_le)

/-- Events are taken until the collector is full, and none behind that. -/
theorem exists_keeps (limits : Limits) (given : List (String × Event)) :
    ∃ taken behind, given = taken ++ behind ∧ (recordAll limits given).Keeps limits taken ∧
      (behind = [] ∨ (recordAll limits given).total = limits.maxErrorCollection) := by
  induction given using List.reverseRecOn with
  | nil => exact ⟨[], [], rfl, keeps_empty, Or.inl rfl⟩
  | append_singleton given x ih =>
    obtain ⟨taken, behind, rfl, hkeeps, hend⟩ := ih
    rw [recordAll_concat]
    by_cases hfull : (recordAll limits (taken ++ behind)).total = limits.maxErrorCollection
    · rw [record_of_full hfull.ge]
      exact ⟨taken, behind ++ [x], List.append_assoc .., hkeeps, Or.inr hfull⟩
    · obtain rfl := hend.resolve_right hfull
      rw [List.append_nil] at hkeeps hfull ⊢
      refine ⟨taken ++ [x], [], (List.append_nil _).symm, ?_, Or.inl rfl⟩
      exact hkeeps.record (Nat.lt_of_le_of_ne hkeeps.within hfull)

/-- Where a file has room for as many events as the collector, it never runs out of room. -/
theorem Keeps.counted_of_le (h : c.Keeps limits taken)
    (hlimits : limits.maxErrorCollection ≤ limits.maxLogEventsPerFile) (q : Event → Bool) :
    addUp c.files (·.latest.countP q) = taken.countP (q ·.2) :=
  h.counted.resolve_right (Nat.not_lt_of_le (h.within.trans hlimits)) q

theorem Keeps.total_of_le (h : c.Keeps limits taken)
    (hlimits : limits.maxErrorCollection ≤ limits.maxLogEventsPerFile) :
    c.total = taken.length := by
  have hall := h.counted_of_le hlimits fun _ => true
  simp only [List.countP_true] at hall
  rw [c.total_eq, hall]

theorem Keeps.events_of_le (h : c.Keeps limits taken)
    (hlimits : limits.maxErrorCollection ≤ limits.maxLogEventsPerFile) :
    c.eventsOf p = eventsAt p taken := by
  have hlength : taken.length ≤ limits.maxErrorCollection := h.total_of_le hlimits ▸ h.within
  rw [h.events, marked_of_le (length_eventsAt_le.trans (hlength.trans hlimits))]

/-- What is taken there are the first events. -/
theorem keeps_take (hlimits : limits.maxErrorCollection ≤ limits.maxLogEventsPerFile) :
    (recordAll limits given).Keeps limits (given.take limits.maxErrorCollection) := by
  obtain ⟨taken, behind, heq, h, hend⟩ := exists_keeps limits given
  have htake : given.take limits.maxErrorCollection = taken := by
    have htotal := h.total_of_le hlimits
    rcases hend with rfl | hfull
    · rw [heq, List.append_nil, List.take_of_length_le (htotal ▸ h.within)]
    · rw [heq, List.take_left' (htotal.symm.trans hfull)]
  rwa [htake]

/-- A collector that has been given these events and has taken the first of them. -/
structure Holds (c : Collector) (limits : Limits) (given : List (String × Event)) : Prop where
  ordered : Ordered c.files
  events : ∀ path, c.eventsOf path =
    ((given.take limits.maxErrorCollection).filter (Path.same path ·.1)).map (·.2)
  total : c.total = (given.take limits.maxErrorCollection).length

end Collector
end Ttm.Log
