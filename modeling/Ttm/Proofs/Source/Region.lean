import Ttm.Proofs.Source.Lines
import Ttm.Proofs.Source.Run

/-!
The bytes of a source by where they stand: in code, in a comment or in a quoted run, which a limit
may cut off. A byte that is not allowed where it stands offends.
-/
namespace Ttm.Source

/-- A byte by where it stands. -/
inductive Mark
  | code (b : UInt8)
  | comment (b : UInt8)
  /-- The quote that a run begins or ends with. -/
  | quote
  | quoted (b : UInt8)
  deriving DecidableEq, Repr

namespace Mark

def byte : Mark → UInt8
  | code b | comment b | quoted b => b
  | quote => Byte.quote

/-- The byte is not allowed where it stands. -/
def offends : Mark → Bool
  | code b => ByteTable.standard.classOf b == .forbidden
  | quoted b => b == Byte.delimiter
  | comment _ | quote => false

theorem bytes_comment (text : List UInt8) : (text.map comment).map byte = text := by
  rw [List.map_map]
  exact List.map_id text

theorem bytes_quoted (text : List UInt8) : (text.map quoted).map byte = text := by
  rw [List.map_map]
  exact List.map_id text

end Mark

namespace Run

/-- The run behind a quote, with room for `room` bytes, and the source behind the run. What is left
open ends before the newline, or before the first byte above the limit. -/
def split (room : Nat) (source : List UInt8) : Run × List UInt8 :=
  let content := (source.takeWhile inside).take room
  let behind := source.drop content.length
  if behind.head? = some Byte.quote then (⟨content, true⟩, behind.tail)
  else (⟨content, false⟩, behind)

/-- The bytes behind the opening quote. -/
def marks (r : Run) : List Mark := r.content.map .quoted ++ if r.closed then [.quote] else []

end Run

/-- A part of a source that is read in one way. -/
inductive Region
  | code (b : UInt8)
  /-- The line from two slashes on. -/
  | comment (text : List UInt8)
  | run (r : Run)
  deriving DecidableEq, Repr

namespace Region

def marks : Region → List Mark
  | code b => [.code b]
  | comment text => text.map .comment
  | run r => .quote :: r.marks

def isOpen : Region → Bool
  | run r => !r.closed
  | code _ | comment _ => false

end Region

variable {maxString room : Nat} {b : UInt8} {source rest : List UInt8}

namespace Run

theorem inside_iff : inside b ↔ b ≠ Byte.quote ∧ b ≠ Byte.newline := by simp [inside]

theorem split_nil : split room [] = (⟨[], false⟩, []) := by simp [split]

theorem split_quote : split room (Byte.quote :: rest) = (⟨[], true⟩, rest) := by
  simp [split, inside]

/-- A run ends, open, before a newline and before the first byte it has no room for. -/
theorem split_end (hquote : b ≠ Byte.quote) (hends : b = Byte.newline ∨ room = 0) :
    split room (b :: rest) = (⟨[], false⟩, b :: rest) := by
  rcases hends with rfl | rfl
  · simp [split, inside, Byte.newline, Byte.quote]
  · simp [split, hquote]

theorem split_content (hquote : b ≠ Byte.quote) (hline : b ≠ Byte.newline) :
    split (room + 1) (b :: rest) =
      (⟨b :: (split room rest).1.content, (split room rest).1.closed⟩, (split room rest).2) := by
  have hin : inside b := inside_iff.mpr ⟨hquote, hline⟩
  simp only [split, List.takeWhile_cons_of_pos hin, List.take_succ_cons, List.length_cons,
    List.drop_succ_cons]
  split <;> rfl

/-- A run and what stands behind it make up the source. -/
theorem bytes_split :
    (split room source).1.marks.map Mark.byte ++ (split room source).2 = source := by
  have hprefix : (source.takeWhile inside).take room <+: source :=
    (List.take_prefix ..).trans (List.takeWhile_prefix _)
  have hcontent := List.prefix_iff_eq_append.mp hprefix
  simp only [split, marks, List.map_append]
  split
  · next hquote =>
    obtain ⟨behind, hbehind⟩ := List.head?_eq_some_iff.mp hquote
    rw [hbehind] at hcontent ⊢
    rw [Mark.bytes_quoted, List.append_assoc]
    exact hcontent
  · rw [Mark.bytes_quoted]
    simpa using hcontent

theorem length_split : (split room source).2.length ≤ source.length := by
  have hlength := congrArg List.length (@bytes_split room source)
  rw [List.length_append] at hlength
  omega

end Run

/-- The regions of a source, when runs hold `maxString` bytes at most. -/
def regions (maxString : Nat) (source : List UInt8) : List Region :=
  match source with
  | [] => []
  | b :: rest =>
    if b = Byte.slash ∧ rest.head? = some Byte.slash then
      .comment ((b :: rest).takeWhile (· != Byte.newline)) ::
        regions maxString (rest.dropWhile (· != Byte.newline))
    else if b = Byte.quote then
      .run (Run.split maxString rest).1 :: regions maxString (Run.split maxString rest).2
    else .code b :: regions maxString rest
termination_by source.length
decreasing_by
  · exact Nat.lt_succ_of_le (List.length_dropWhile_le _ _)
  · exact Nat.lt_succ_of_le Run.length_split
  · exact Nat.lt_succ_self _

/-- The bytes of a source by where they stand. -/
def marks (maxString : Nat) (source : List UInt8) : List Mark :=
  (regions maxString source).flatMap Region.marks

/-- The number of quoted runs that are not closed. -/
def openRuns (maxString : Nat) (source : List UInt8) : Nat :=
  (regions maxString source).countP Region.isOpen

/-- The byte at `i` is not allowed where it stands. -/
def OffendsAt (maxString : Nat) (source : List UInt8) (i : Nat) : Prop :=
  ∃ m ∈ (marks maxString source)[i]?, m.offends

@[simp]
theorem marks_nil : marks maxString [] = [] := by simp [marks, regions]

theorem marks_comment (h : rest.head? = some Byte.slash) :
    marks maxString (Byte.slash :: rest) =
      .comment Byte.slash :: ((rest.takeWhile (· != Byte.newline)).map .comment ++
        marks maxString (rest.dropWhile (· != Byte.newline))) := by
  rw [marks, regions, if_pos ⟨rfl, h⟩]
  rfl

theorem marks_quote : marks maxString (Byte.quote :: rest) =
    .quote ::
      ((Run.split maxString rest).1.marks ++ marks maxString (Run.split maxString rest).2) := by
  rw [marks, regions, if_neg (fun h => absurd h.1 (by decide)), if_pos rfl]
  rfl

theorem marks_code (hquote : b ≠ Byte.quote)
    (hcomment : ¬ (b = Byte.slash ∧ rest.head? = some Byte.slash)) :
    marks maxString (b :: rest) = .code b :: marks maxString rest := by
  rw [marks, regions, if_neg hcomment, if_neg hquote]
  rfl

/-- Every byte of a source has one mark. -/
theorem bytes_marks (maxString : Nat) (source : List UInt8) :
    (marks maxString source).map Mark.byte = source := by
  fun_induction regions maxString source with
  | case1 => rw [marks_nil, List.map_nil]
  | case2 b rest hcomment ih =>
    obtain ⟨rfl, hnext⟩ := hcomment
    rw [marks_comment hnext, List.map_cons, List.map_append, Mark.bytes_comment, ih,
      List.takeWhile_append_dropWhile]
    rfl
  | case3 rest hcomment ih =>
    rw [marks_quote, List.map_cons, List.map_append, ih, Run.bytes_split]
    rfl
  | case4 b rest hcomment hquote ih =>
    rw [marks_code hquote hcomment, List.map_cons, ih]
    rfl

/-- Quotes come in pairs but for the open runs. -/
theorem count_quote_marks (maxString : Nat) (source : List UInt8) :
    (marks maxString source).count .quote % 2 = openRuns maxString source % 2 := by
  rw [marks, openRuns]
  induction regions maxString source with
  | nil => rfl
  | cons region regions ih =>
    rw [List.flatMap_cons, List.count_append, List.countP_cons]
    cases region with
    | code b => simpa [Region.marks, Region.isOpen] using ih
    | comment text =>
      have hno : Mark.quote ∉ text.map Mark.comment := by simp
      simpa [Region.marks, Region.isOpen, List.count_eq_zero_of_not_mem hno] using ih
    | run r =>
      have hno : Mark.quote ∉ r.content.map Mark.quoted := by simp
      have hcount : (Region.run r).marks.count .quote = if r.closed then 2 else 1 := by
        rw [Region.marks, Run.marks, List.count_cons_self, List.count_append,
          List.count_eq_zero_of_not_mem hno]
        split <;> rfl
      rw [hcount, Region.isOpen]
      cases r.closed <;> simp <;> omega

/-- The limit leaves one run open, and the end of the source another. -/
example : openRuns 1 [0x27, 0x61, 0x62, 0x27] = 2 := by cbv

end Ttm.Source
