import Mathlib.Data.List.Perm.Basic
import Ttm.Command.Options

/-!
Command lines as lists of parts. A line is read just when it is made of parts of which at most one
is a source file, and what they ask for depends on the order of the paths of each flag alone.
-/
namespace Ttm.Command

/-- A part of a command line. -/
inductive Part
  | help
  | pair (flag : Flag) (path : String)
  | input (argument : String)
  deriving DecidableEq, Repr

namespace Part

def arguments : Part → List String
  | help => ["--help"]
  | pair flag path => [flag.text, path]
  | input argument => [argument]

def input? : Part → Option String
  | input argument => some argument
  | help | pair .. => none

def path? (flag : Flag) : Part → Option String
  | pair given path => if given = flag then some path else none
  | help | input _ => none

/-- The arguments of all parts, one part after the other. -/
def line (parts : List Part) : List String := parts.flatMap arguments

def inputs (parts : List Part) : List String := parts.filterMap input?

/-- The paths given for a flag, in their order. -/
def paths (flag : Flag) (parts : List Part) : List String := parts.filterMap (path? flag)

/-- A line is split into parts, of which at most one is a source file. -/
structure Splits (arguments : List String) (parts : List Part) : Prop where
  line : line parts = arguments
  plain : ∀ argument ∈ inputs parts, argument.startsWith "--" = false
  single : (inputs parts).length ≤ 1

end Part

namespace Options

/-- What the parts of a line ask for: the last path of each flag. -/
def ofParts (parts : List Part) : Options where
  input := (Part.inputs parts).head?
  lex := (Part.paths .lex parts).getLast?
  id := (Part.paths .id parts).getLast?
  json := (Part.paths .json parts).getLast?
  log := (Part.paths .log parts).getLast?
  config := (Part.paths .config parts).getLast?
  help := parts.contains .help

/-- Takes one part on top of those taken before. -/
def take (o : Options) : Part → Except UsageError Options
  | .help => .ok { o with help := true }
  | .pair flag path => .ok (o.set path flag)
  | .input argument => o.setInput argument

/-- What is asked for by the parts on top of what was asked for before. -/
def extend (o : Options) (parts : List Part) : Options where
  input := o.input.or (Part.inputs parts).head?
  lex := (Part.paths .lex parts).getLast?.or o.lex
  id := (Part.paths .id parts).getLast?.or o.id
  json := (Part.paths .json parts).getLast?.or o.json
  log := (Part.paths .log parts).getLast?.or o.log
  config := (Part.paths .config parts).getLast?.or o.config
  help := o.help || parts.contains .help

end Options

open Ttm.Command.Part (Splits inputs paths line)

variable {o o' : Options} {flag : Flag} {path argument : String} {rest arguments : List String}
  {part : Part} {parts parts' : List Part}

@[simp]
theorem inputs_help : inputs (.help :: parts) = inputs parts := rfl

@[simp]
theorem inputs_pair : inputs (.pair flag path :: parts) = inputs parts := rfl

@[simp]
theorem inputs_input : inputs (.input argument :: parts) = argument :: inputs parts := rfl

@[simp]
theorem paths_help : paths flag (.help :: parts) = paths flag parts := rfl

@[simp]
theorem paths_pair {given : Flag} : paths flag (.pair given path :: parts) =
    if given = flag then path :: paths flag parts else paths flag parts := by
  by_cases h : given = flag <;> simp [paths, Part.path?, h]

@[simp]
theorem paths_input : paths flag (.input argument :: parts) = paths flag parts := rfl

theorem Flag.ofText?_text (flag : Flag) : Flag.ofText? flag.text = some flag := by
  cases flag <;> decide

theorem Flag.text_of_ofText? (h : Flag.ofText? argument = some flag) : flag.text = argument :=
  beq_iff_eq.mp (List.find?_some (p := fun flag : Flag => flag.text == argument) h)

theorem Flag.text_ne_help (flag : Flag) : flag.text ≠ "--help" := by
  cases flag <;> decide

theorem startsWith_help : "--help".startsWith "--" = true := by decide +kernel

theorem startsWith_text (flag : Flag) : flag.text.startsWith "--" = true := by
  cases flag <;> decide +kernel

/-- What does not begin with two dashes is neither a flag nor a request for help. -/
theorem ne_help_of_plain (h : argument.startsWith "--" = false) :
    argument ≠ "--help" ∧ Flag.ofText? argument = none := by
  constructor
  · rintro rfl
    rw [startsWith_help] at h
    cases h
  · refine Option.eq_none_iff_forall_ne_some.mpr fun flag hflag => ?_
    rw [← Flag.text_of_ofText? hflag, startsWith_text] at h
    cases h

/-- A part at the front of a line is taken as a whole. -/
theorem readFrom_part
    (hplain : ∀ argument, part = .input argument → argument.startsWith "--" = false) :
    o.readFrom (part.arguments ++ rest) = (do (← o.take part).readFrom rest) := by
  cases part with
  | help => exact if_pos rfl
  | pair flag path =>
    rw [Part.arguments, List.cons_append, Options.readFrom, if_neg flag.text_ne_help,
      Flag.ofText?_text]
    rfl
  | input argument =>
    have harg := hplain argument rfl
    obtain ⟨hhelp, hflag⟩ := ne_help_of_plain harg
    rw [Part.arguments, List.cons_append, Options.readFrom, if_neg hhelp, hflag]
    exact if_neg (Bool.eq_false_iff.mp harg)

theorem inputs_subset : inputs parts ⊆ inputs (part :: parts) :=
  ((List.sublist_cons_self part parts).filterMap _).subset

theorem readFrom_line (hplain : ∀ argument ∈ inputs parts, argument.startsWith "--" = false) :
    o.readFrom (line parts) = parts.foldlM Options.take o := by
  induction parts generalizing o with
  | nil => rfl
  | cons part parts ih =>
    rw [line, List.flatMap_cons, readFrom_part, List.foldlM_cons]
    · cases o.take part with
      | error => rfl
      | ok o => exact ih fun argument hmem => hplain argument (inputs_subset hmem)
    · rintro argument rfl
      exact hplain argument List.mem_cons_self

/-- What is read is made of parts. -/
theorem exists_line (h : o.readFrom arguments = .ok o') :
    ∃ parts, line parts = arguments ∧
      ∀ argument ∈ inputs parts, argument.startsWith "--" = false := by
  fun_induction Options.readFrom o arguments with
  | case1 o => exact ⟨[], rfl, nofun⟩
  | case2 o rest ih =>
    obtain ⟨parts, rfl, hplain⟩ := ih h
    exact ⟨.help :: parts, rfl, hplain⟩
  | case3 o argument hhelp flag hflag path rest ih =>
    obtain ⟨parts, rfl, hplain⟩ := ih h
    refine ⟨.pair flag path :: parts, ?_, hplain⟩
    rw [← Flag.text_of_ofText? hflag]
    rfl
  | case4 => cases h
  | case5 => cases h
  | case6 o argument rest hhelp hflag hdashes ih =>
    cases hinput : o.setInput argument with
    | error e =>
      rw [hinput] at h
      cases h
    | ok o₁ =>
      rw [hinput] at h
      obtain ⟨parts, rfl, hplain⟩ := ih o₁ h
      exact ⟨.input argument :: parts, rfl,
        List.forall_mem_cons.mpr ⟨Bool.eq_false_iff.mpr hdashes, hplain⟩⟩

theorem setInput_eq_ok (h : o.setInput argument = .ok o') :
    o.input = none ∧ o' = { o with input := some argument } := by
  unfold Options.setInput at h
  split at h
  · cases h
  · next hnone =>
    cases h
    exact ⟨Option.not_isSome_iff_eq_none.mp hnone, rfl⟩

/-- A part that is taken is asked for from then on. -/
theorem extend_take (h : o.take part = .ok o') :
    o'.extend parts = o.extend (part :: parts) ∧
      o'.input.toList ++ inputs parts = o.input.toList ++ inputs (part :: parts) := by
  cases part with
  | help =>
    cases h
    exact ⟨by simp [Options.extend], rfl⟩
  | pair flag path =>
    cases h
    cases flag <;> simp [Options.extend, Options.set, List.getLast?_cons]
  | input argument =>
    obtain ⟨hnone, rfl⟩ := setInput_eq_ok h
    simp [Options.extend, hnone]

/-- Only a second source file is not taken. -/
theorem inputs_of_take_error {e : UsageError} (h : o.take part = .error e) :
    2 ≤ (o.input.toList ++ inputs (part :: parts)).length := by
  cases part with
  | help | pair => cases h
  | input argument =>
    simp only [Options.take, Options.setInput] at h
    split at h
    · next hsome =>
      obtain ⟨input, hinput⟩ := Option.isSome_iff_exists.mp hsome
      rw [hinput, inputs_input]
      simp
    · cases h

/-- Parts are taken if at most one is a source file, and then all of them are asked for. -/
theorem foldlM_take : parts.foldlM Options.take o = .ok o' ↔
    (o.input.toList ++ inputs parts).length ≤ 1 ∧ o' = o.extend parts := by
  induction parts generalizing o with
  | nil =>
    have hone : (o.input.toList ++ inputs []).length ≤ 1 := by
      rw [inputs, List.filterMap_nil, List.append_nil]
      exact Option.length_toList_le
    have hsame : o.extend [] = o := by simp [Options.extend, inputs, paths]
    rw [hsame, List.foldlM_nil]
    exact ⟨fun h => ⟨hone, (Except.ok.inj h).symm⟩, fun h => congrArg Except.ok h.2.symm⟩
  | cons part parts ih =>
    rw [List.foldlM_cons]
    cases h : o.take part with
    | error e =>
      have htwo := @inputs_of_take_error o part parts e h
      exact ⟨nofun, fun hone => by omega⟩
    | ok o₁ =>
      obtain ⟨hextend, hinputs⟩ := @extend_take o o₁ part parts h
      rw [← hextend, ← hinputs]
      exact ih

theorem extend_empty (parts : List Part) : ({} : Options).extend parts = .ofParts parts := by
  simp [Options.extend, Options.ofParts]

theorem Part.Splits.read (h : Splits arguments parts) :
    Options.read arguments = .ok (.ofParts parts) := by
  rw [Options.read, ← h.line, readFrom_line h.plain, foldlM_take, extend_empty]
  exact ⟨h.single, rfl⟩

theorem exists_splits (h : Options.read arguments = .ok o) : ∃ parts, Splits arguments parts := by
  obtain ⟨parts, rfl, hplain⟩ := exists_line h
  rw [Options.read, readFrom_line hplain] at h
  exact ⟨parts, rfl, hplain, (foldlM_take.mp h).1⟩

theorem eq_of_perm_of_single {α : Type} {xs ys : List α} (h : xs.Perm ys)
    (hsingle : ys.length ≤ 1) : xs = ys := by
  match ys with
  | [] => exact List.perm_nil.mp h
  | [y] => exact List.perm_singleton.mp h

/-- In another order, in which the paths of each flag keep theirs, the parts ask for the same. -/
theorem ofParts_of_perm (hperm : parts'.Perm parts)
    (hpaths : ∀ flag, paths flag parts' = paths flag parts) (hsingle : (inputs parts).length ≤ 1) :
    Options.ofParts parts' = .ofParts parts := by
  have hinputs : inputs parts' = inputs parts :=
    eq_of_perm_of_single (hperm.filterMap _) hsingle
  simp only [Options.ofParts, hinputs, hpaths, hperm.contains_eq]

theorem Part.Splits.reorder (h : Splits arguments parts) (hperm : parts'.Perm parts) :
    Splits (Part.line parts') parts' := by
  have hinputs : (inputs parts').Perm (inputs parts) := hperm.filterMap _
  exact ⟨rfl, fun argument hmem => h.plain argument (hinputs.mem_iff.mp hmem),
    hinputs.length_eq ▸ h.single⟩

/-- What is read of a line. -/
structure ReadInParts (arguments : List String) (outcome : Except UsageError Options) : Prop where
  accepted : (∃ o, outcome = .ok o) ↔ ∃ parts, Splits arguments parts
  options : ∀ parts, Splits arguments parts → outcome = .ok (.ofParts parts)
  reordered : ∀ parts parts', Splits arguments parts → parts'.Perm parts →
    (∀ flag, paths flag parts' = paths flag parts) → Options.read (line parts') = outcome

/-- A line is read just when it can be split into parts, and what they ask for does not depend on
their order but for that of the paths of one flag. -/
theorem read_inParts (arguments : List String) :
    ReadInParts arguments (Options.read arguments) := by
  constructor
  case accepted => exact ⟨fun ⟨o, h⟩ => exists_splits h, fun ⟨parts, h⟩ => ⟨_, h.read⟩⟩
  case options => exact fun parts h => h.read
  case reordered =>
    intro parts parts' h hperm hpaths
    rw [(h.reorder hperm).read, h.read, ofParts_of_perm hperm hpaths h.single]

/-- A flag may be the path of another one, and the last path of a flag counts. -/
example : Options.read ["--lex", "--help", "a.ttm", "--lex", "--id"] =
    .ok { input := some "a.ttm", lex := some "--id" } := by
  decide +kernel

end Ttm.Command
