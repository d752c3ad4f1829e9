import Ttm.Postfix

/-!
What a pass notes. It notes the error that ends it, last, and no other one. The settings select
among the other notes, and nothing else depends on them.
-/
namespace Ttm.Postfix

open Lexeme (Kind)

def Note.isFailure : Note → Bool
  | .failed _ => true
  | _ => false

/-- Whether the settings ask for a note. -/
def Note.asked (settings : ConversionSettings) : Note → Bool
  | .converted _ => settings.logStatements
  | .failed _ => true

/-- The settings that ask for every note. -/
def allNotes : ConversionSettings where
  logStatements := true

/-- Notes of statements that were converted. -/
def Quiet (notes : List Note) : Prop := ∀ n ∈ notes, n.isFailure = false

/-- A pass that all notes were kept in, as other settings would have it. -/
def Pass.under (p : Pass) (settings : ConversionSettings) : Pass :=
  { p with settings, notes := p.notes.filter (·.asked settings) }

/-- How a pass that began at `p` ends: it notes a failure last, and just where it fails. -/
inductive Tells (p : Pass) : Except Error Unit × Pass → Prop
  | ok {q : Pass} {more : List Note} (quiet : Quiet more) (notes : q.notes = more ++ p.notes) :
    Tells p (.ok (), q)
  | error {e : Error} {q : Pass} {more : List Note} (quiet : Quiet more)
    (notes : q.notes = .failed e :: (more ++ p.notes)) : Tells p (.error e, q)

variable {limits : Limits} {settings : ConversionSettings} {symbols : Symbol.Table} {index : Nat}
  {previous : Option Kind} {p q : Pass} {l : Lexeme} {ls : List Lexeme} {c : Converted} {e : Error}
  {r : Except Error Unit × Pass} {t : Lexeme.Table} {metrics : Metrics}

theorem quiet_nil : Quiet [] := fun _ h => by cases h

theorem walk_padding (hp : l.isPadding) : walk symbols index previous p (l :: ls) =
    walk symbols (index + 1) previous (p.keep l) ls := by
  rw [walk, if_pos hp]

theorem walk_keep (hp : l.isPadding = false) (hstart : startAt symbols previous l = .none) :
    walk symbols index previous p (l :: ls) =
      walk symbols (index + 1) (some l.kind) (p.keep l) ls := by
  rw [walk, hp, hstart, if_neg Bool.false_ne_true]

theorem walk_behind (hp : l.isPadding = false) (hstart : startAt symbols previous l = .behind) :
    walk symbols index previous p (l :: ls) =
      match convertFirst symbols (index + 1) ls with
      | .error e => (.error e, p.fail e (l :: ls))
      | .ok (reordered, length, rest) =>
        walk symbols (index + 1 + length) (some .semicolon)
          ((p.keep l).convert ⟨l.line, reordered, length - reordered.length⟩) rest := by
  rw [walk, hp, hstart]
  simp only [Bool.false_eq_true, if_false]
  split <;> next hconvert => rw [hconvert]

theorem walk_here (hp : l.isPadding = false) (hstart : startAt symbols previous l = .here) :
    walk symbols index previous p (l :: ls) =
      match convertFirst symbols index (l :: ls) with
      | .error e => (.error e, p.fail e (l :: ls))
      | .ok (reordered, length, rest) =>
        walk symbols (index + length) (some .semicolon)
          (p.convert ⟨l.line, reordered, length - reordered.length⟩) rest := by
  rw [walk, hp, hstart]
  simp only [Bool.false_eq_true, if_false]
  split <;> next hconvert => rw [hconvert]

theorem Tells.fail : Tells p (.error e, p.fail e ls) :=
  .error quiet_nil rfl

/-- What a pass does not note changes nothing. -/
theorem Tells.of_notes (h : Tells q r) (hnotes : q.notes = p.notes) : Tells p r := by
  cases h with
  | ok quiet notes => exact .ok quiet (hnotes ▸ notes)
  | error quiet notes => exact .error quiet (hnotes ▸ notes)

/-- A statement that is converted is noted before all that follows, or not at all. -/
theorem Tells.convert (h : Tells (p.convert c) r) : Tells p r := by
  have hquiet {more : List Note} (quiet : Quiet more) : Quiet (more ++ [.converted c]) :=
    List.forall_mem_append.mpr ⟨quiet, List.forall_mem_singleton.mpr rfl⟩
  cases hlog : p.settings.logStatements with
  | true =>
    have hconvert : (p.convert c).notes = .converted c :: p.notes := if_pos hlog
    cases h with
    | ok quiet notes => exact .ok (hquiet quiet) (by simp [notes, hconvert])
    | error quiet notes => exact .error (hquiet quiet) (by simp [notes, hconvert])
  | false => exact h.of_notes (if_neg (by simp [hlog]))

theorem tells_walk : Tells p (walk symbols index previous p ls) := by
  fun_induction walk symbols index previous p ls with
  | case1 index previous p => exact .ok quiet_nil rfl
  | case2 index previous p l rest hp ih => exact ih.of_notes rfl
  | case3 index previous p l rest hp hs ih => exact ih.of_notes rfl
  | case4 index previous p l rest hp hs e hc => exact .fail
  | case5 index previous p l rest hp hs reordered n behind hc _ ih => exact ih.convert.of_notes rfl
  | case6 index previous p l rest hp hs e hc => exact .fail
  | case7 index previous p l rest hp hs reordered n behind hc _ ih => exact ih.convert

theorem under_fail : (p.fail e ls).under settings = (p.under settings).fail e ls := by
  simp only [Pass.under, Pass.fail, List.filter_cons, Note.asked, if_true]

/-- Where every statement is noted, it is kept under the settings that ask for it. -/
theorem under_convert (full : p.settings = allNotes) :
    (p.convert c).under settings = (p.under settings).convert c := by
  simp only [Pass.under, Pass.convert, full, allNotes, if_true, List.filter_cons]
  rfl

/-- The settings select among the notes of a walk, and nothing else depends on them. -/
theorem walk_under (full : p.settings = allNotes) :
    walk symbols index previous (p.under settings) ls =
      ((walk symbols index previous p ls).1,
        (walk symbols index previous p ls).2.under settings) := by
  fun_induction walk symbols index previous p ls with
  | case1 index previous p => rw [walk]
  | case2 index previous p l rest hp ih =>
    rw [walk_padding hp]
    exact ih full
  | case3 index previous p l rest hp hs ih =>
    rw [walk_keep (by simpa using hp) hs]
    exact ih full
  | case4 index previous p l rest hp hs e hc =>
    rw [walk_behind (by simpa using hp) hs, hc, under_fail]
  | case5 index previous p l rest hp hs reordered n behind hc _ ih =>
    rw [walk_behind (by simpa using hp) hs, hc, ← ih full, under_convert (p := p.keep l) full]
    rfl
  | case6 index previous p l rest hp hs e hc =>
    rw [walk_here (by simpa using hp) hs, hc, under_fail]
  | case7 index previous p l rest hp hs reordered n behind hc _ ih =>
    rw [walk_here (by simpa using hp) hs, hc, ← ih full, under_convert full]

theorem convertAll_asked (settings : ConversionSettings) : convertAll symbols settings t =
    { convertAll symbols allNotes t with
      notes := (convertAll symbols allNotes t).notes.filter (·.asked settings) } := by
  have hwalk := @walk_under limits settings symbols 0 none { settings := allNotes } t.toList rfl
  have hstart : Pass.under { settings := allNotes } settings = { settings } := rfl
  rw [hstart] at hwalk
  simp only [convertAll, hwalk, Pass.under, List.filter_reverse]

/-- The statements and the outcome of a pass are the same under all settings. -/
theorem convertAll_settings (settings settings' : ConversionSettings) :
    (convertAll symbols settings t).lexemes = (convertAll symbols settings' t).lexemes ∧
      (convertAll symbols settings t).result = (convertAll symbols settings' t).result := by
  rw [convertAll_asked settings, convertAll_asked settings']
  exact ⟨rfl, rfl⟩

theorem quiet_of_convertAll (h : (convertAll symbols settings t).result = .ok metrics) :
    Quiet (convertAll symbols settings t).notes := by
  have htells := @tells_walk limits symbols 0 none { settings } t.toList
  unfold convertAll at h ⊢
  generalize walk symbols 0 none { settings } t.toList = r at h htells ⊢
  cases htells with
  | ok quiet notes =>
    intro n hn
    rw [List.append_nil] at notes
    exact quiet n (notes ▸ List.mem_reverse.mp hn)
  | error => cases h

/-- A pass that fails notes its error last, and no other one. -/
theorem failed_of_convertAll (h : (convertAll symbols settings t).result = .error e) :
    ∃ before, Quiet before ∧ (convertAll symbols settings t).notes = before ++ [.failed e] := by
  have htells := @tells_walk limits symbols 0 none { settings } t.toList
  unfold convertAll at h ⊢
  generalize walk symbols 0 none { settings } t.toList = r at h htells ⊢
  cases htells with
  | ok => cases h
  | @error e' q more quiet notes =>
    cases h
    refine ⟨more.reverse, fun n hn => quiet n (List.mem_reverse.mp hn), ?_⟩
    show q.notes.reverse = _
    rw [notes, List.append_nil, List.reverse_cons]

end Ttm.Postfix
