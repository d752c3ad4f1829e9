import Ttm.Proofs.Program.Interruption
import Ttm.Proofs.Symbol.Registration

/-!
Registration over the life of a symbol table. The table only grows: what is refused is not taken
back, and what stands in the table is not added again.
-/
namespace Ttm.Program

open Source (Token)
open Ttm.Symbol (Signature)

/-- Registering the library in a symbol table, alone or at the beginning of a scan. -/
inductive Use
  | register
  | scan (settings : ScanSettings) (maxDepth : Nat) (tokens : List Token) (lexemes : Lexeme.Table)

namespace Use

/-- The symbols behind a use of the table, also if it fails. -/
def symbols [Limits] (t : Symbol.Table) : Use → Symbol.Table
  | register => t.registerLibrary.2
  | scan settings maxDepth tokens lexemes =>
    (Program.scan settings maxDepth tokens ⟨t, lexemes⟩).program.symbols

/-- A new table of this capacity after some uses. -/
def after [Limits] (capacity : Nat) (uses : List Use) : Symbol.Table :=
  uses.foldl symbols (.empty capacity)

end Use

/-- Registration adds all of the library, or nothing. -/
def AllOrNothing (t : Symbol.Table) : Prop :=
  match t.registerLibrary with
  | (.error _, u) => u.toList = t.toList
  | (.ok _, u) => ∀ x ∈ Signature.library, u.Has x

/-- Every use found room for the library. -/
def Unrefused [Limits] (capacity : Nat) (uses : List Use) : Prop :=
  ∀ before use behind, uses = before ++ use :: behind →
    ∃ n t, (Use.after capacity before).registerLibrary = (.ok n, t)

/-- What registration leaves in a table with these uses. -/
structure Registers [Limits] (capacity : Nat) (uses : List Use) : Prop where
  refused_first : ∀ e t, uses = [] → (Use.after capacity uses).registerLibrary = (.error e, t) →
    e = .capacityExceeded capacity ∧ t.toList = Signature.library.take capacity
  refused : ∀ e t, uses ≠ [] → (Use.after capacity uses).registerLibrary = (.error e, t) →
    t = Use.after capacity uses
  functions : ∀ n t, (Use.after capacity uses).registerLibrary = (.ok n, t) →
    ∀ s ∈ Signature.all, t.Has (.library s.name Symbol.globalScope s.returns .function)
  parameters : ∀ n t, (Use.after capacity uses).registerLibrary = (.ok n, t) →
    ∀ s ∈ Signature.all, s.name = "parseInt" ∨ Unrefused capacity uses →
      ∀ x ∈ s.symbols, t.Has x

/-- A symbol table with one symbol more at most. -/
inductive Appends (t : Symbol.Table) : Symbol.Table → Prop
  | same : Appends t t
  | added {x : Symbol} (hr : t.refusal? x = none) : Appends t (t.add x)

namespace Scan

variable {limits : Limits} {s t : State} {token : Token} {called : Bool} {index : Nat}
  {k : Lexeme.Kind} {type : DataType} {value : String} {p : Program}

theorem Interns.appends (hi : Interns type value s index t) :
    Appends s.program.symbols t.program.symbols := by
  cases hi with
  | reused => exact .same
  | added _ hr => exact .added hr

theorem Resolves.appends (hr : Resolves token called s k index t) :
    Appends s.program.symbols t.program.symbols := by
  cases hr with
  | found | main => exact .same
  | declared _ _ _ _ _ hr =>
    rw [addDeclaration_prepare]
    exact .added hr
  | mainDeclared _ _ _ _ hr => exact .added hr
  | literal _ hi => exact hi.appends

theorem Step.appends (hs : Step token called s t) :
    Appends s.program.symbols t.program.symbols := by
  cases hs with
  | refer hr hw => cases hw <;> exact hr.appends
  | sign _ _ _ hi => exact hi.appends
  | datatype | minus | enter | leave | plain => exact .same

theorem Interrupted.appends (hs : Interrupted token called s p) :
    Appends s.program.symbols p.symbols := by
  cases hs with
  | unchanged | opened => exact .same
  | resolved hr | referred hr => exact hr.appends
  | zero hi | zeroReferred hi => exact hi.appends

end Scan

section

variable {limits : Limits} {settings : ScanSettings} {P : Symbol.Table → Prop} {t u : Symbol.Table}
  {p : Program} {maxDepth capacity : Nat} {tokens : List Token} {uses : List Use} {use : Use}

theorem Appends.induct (hadd : ∀ t x, P t → t.refusal? x = none → P (t.add x)) (h : P t)
    (ha : Appends t u) : P u := by
  cases ha with
  | same => exact h
  | added hr => exact hadd _ _ h hr

/-- What holds with the library, and is kept by every symbol that is not refused, holds behind a
scan. -/
theorem scan_symbols_induction (hadd : ∀ t x, P t → t.refusal? x = none → P (t.add x))
    (h : P p.symbols.registerLibrary.2) : P (scan settings maxDepth tokens p).program.symbols :=
  scan_induction (P := (P ·.program.symbols)) (Q := (P ·.symbols))
    (fun _ _ _ _ hs hstep => hstep.appends.induct hadd hs)
    (fun _ _ _ _ hs hstop => hstop.appends.induct hadd hs) (fun _ hs => hs) h

/-- The library was registered in the table, or refused. -/
def Settled (capacity : Nat) (t : Symbol.Table) : Prop :=
  t.Kept capacity ∧ t.Stocked capacity

theorem Settled.add {x : Symbol} (h : Settled capacity t) (hr : t.refusal? x = none) :
    Settled capacity (t.add x) := ⟨h.1.add hr, h.2.add h.1 hr⟩

theorem Settled.registerLibrary (h : Settled capacity t) : t.registerLibrary.2 = t :=
  h.2.registerLibrary h.1

theorem settled_symbols (use : Use) (h : Settled capacity t.registerLibrary.2) :
    Settled capacity (use.symbols t) := by
  cases use with
  | register => exact h
  | scan settings maxDepth tokens lexemes =>
    exact scan_symbols_induction (P := Settled capacity) (fun _ _ => Settled.add) h

theorem Settled.foldl (h : Settled capacity t) : Settled capacity (uses.foldl Use.symbols t) := by
  induction uses generalizing t with
  | nil => exact h
  | cons use uses ih => exact ih (settled_symbols use (h.registerLibrary.symm ▸ h))

theorem settled_empty : Settled capacity (Symbol.Table.empty capacity).registerLibrary.2 := by
  have hk : (Symbol.Request.register.run (.empty capacity)).2.Kept capacity :=
    (Symbol.Table.kept_empty capacity).run
  exact ⟨hk, Symbol.Table.stocked_empty⟩

theorem settled_after (h : uses ≠ []) : Settled capacity (Use.after capacity uses) := by
  cases uses with
  | nil => exact (h rfl).elim
  | cons use uses => exact (settled_symbols use settled_empty).foldl

theorem settled_registerLibrary : Settled capacity (Use.after capacity uses).registerLibrary.2 := by
  cases uses with
  | nil => exact settled_empty
  | cons use uses =>
    have h : Settled capacity (Use.after capacity (use :: uses)) := settled_after (by simp)
    rwa [h.registerLibrary]

variable {n : Nat} {x : Symbol}

/-- The first registration decides whether there is room for the whole library. -/
theorem Unrefused.five_le (h : Unrefused capacity uses)
    (hr : (Use.after capacity uses).registerLibrary = (.ok n, t)) : 5 ≤ capacity := by
  cases uses with
  | nil => exact Symbol.Table.registerLibrary_empty_eq_ok hr
  | cons use uses =>
    obtain ⟨m, u, hfirst⟩ := h [] use uses rfl
    exact Symbol.Table.registerLibrary_empty_eq_ok hfirst

theorem Unrefused.has (h : Unrefused capacity uses)
    (hr : (Use.after capacity uses).registerLibrary = (.ok n, t)) (hx : x ∈ Signature.library) :
    t.Has x := by
  obtain ⟨hk, hs⟩ : Settled capacity (Use.after capacity uses).registerLibrary.2 :=
    settled_registerLibrary
  rw [hr] at hk hs
  exact hs.has_library hk (h.five_le hr) hx

theorem has_of_registered (hr : (Use.after capacity uses).registerLibrary = (.ok n, t))
    (hx : x ∈ Signature.library.take 3) : t.Has x := by
  cases uses with
  | nil =>
    have hnone : Unrefused capacity [] := fun before use behind h => by simp at h
    exact hnone.has hr (List.mem_of_mem_take hx)
  | cons use uses =>
    obtain ⟨hk, hs⟩ : Settled capacity (Use.after capacity (use :: uses)) := settled_after (by simp)
    obtain rfl : t = _ := (congrArg Prod.snd hr).symm.trans (hs.registerLibrary hk)
    exact hs.has_of_registered hk hr hx

theorem registers_after (capacity : Nat) (uses : List Use) : Registers capacity uses where
  refused_first e t hnone hr := by
    subst hnone
    rcases Nat.lt_or_ge capacity 5 with hshort | hroom
    · obtain ⟨u, hu, hlist⟩ := Symbol.Table.registerLibrary_empty_of_short hshort
      cases hr.symm.trans hu
      exact ⟨rfl, hlist⟩
    · obtain ⟨u, hu, -⟩ := Symbol.Table.registerLibrary_empty hroom
      cases hr.symm.trans hu
  refused e t hsome hr := by
    have hsettled : Settled capacity (Use.after capacity uses) := settled_after hsome
    exact (congrArg Prod.snd hr).symm.trans hsettled.registerLibrary
  functions n t hr s hs := by
    have hall : ∀ s ∈ Signature.all, .library s.name Symbol.globalScope s.returns .function ∈
        Signature.library.take 3 := by decide
    exact has_of_registered hr (hall s hs)
  parameters n t hr s hs hcause x hx := by
    rcases hcause with hname | hunrefused
    · have hall : ∀ s ∈ Signature.all, s.name = "parseInt" → ∀ x ∈ s.symbols,
          x ∈ Signature.library.take 3 := by decide
      exact has_of_registered hr (hall s hs hname x hx)
    · exact hunrefused.has hr (List.mem_flatMap.mpr ⟨s, hs, hx⟩)

end

attribute [local instance] Limits.development

/-- A refusal leaves three symbols in a table for three, and the parameters of the last function are
missing when the library is registered there again. -/
theorem not_allOrNothing_three : ¬ AllOrNothing (Use.after 3 []) ∧
    ¬ AllOrNothing (Use.after 3 [.register]) := by
  obtain ⟨t, ht, hlist⟩ := Symbol.Table.registerLibrary_empty_of_short (by decide : 3 < 5)
  constructor
  · intro hall
    simp only [AllOrNothing, Use.after, List.foldl_nil, ht] at hall
    exact absurd (hlist.symm.trans hall) (by decide)
  · have hafter : Use.after 3 [.register] = t := congrArg Prod.snd ht
    have hindexed : t.Indexed := by
      rw [← hafter]
      exact (settled_after (by simp)).1.indexed
    have hfound : ∀ s ∈ Signature.all, (t.lookup Symbol.globalScope s.name).isSome := by
      simp only [hindexed.lookup, hlist]
      decide
    have hagain : t.registerLibrary = (.ok 0, t) := Symbol.Table.addLibrary_of_found hfound
    intro hall
    simp only [AllOrNothing, hafter, hagain] at hall
    obtain ⟨i, hi, -⟩ := hall (.library "arg0" "concat" .str .parameter) (by decide)
    have hnone : t.lookup "concat" "arg0" = none := by
      rw [hindexed.lookup, hlist]
      decide
    cases hi.symm.trans hnone

end Ttm.Program
