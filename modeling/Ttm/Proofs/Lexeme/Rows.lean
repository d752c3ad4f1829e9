import Mathlib.Data.List.Basic
import Ttm.Proofs.Lexeme.Table

/-!
The dump of a lexeme table by lines. It has a row for each run of lexemes of one line, and so a row
for each line just when the lines of the lexemes do not decrease.
-/
namespace Ttm.Lexeme

/-- A line number and tags of lexemes of that line. -/
structure Row where
  line : Nat
  tags : List Char
  deriving DecidableEq, Repr

namespace Row

def heading (r : Row) : List Char := (Text.zeroPadded 4 r.line).toList

def chars (r : Row) : List Char := r.heading ++ ' ' :: r.tags ++ ['\n']

/-- Puts a lexeme in front, in the first row if that is its line. -/
def add (l : Lexeme) : List Row → List Row
  | [] => [⟨l.line, [l.kind.tag]⟩]
  | r :: rest =>
    if r.line = l.line then ⟨l.line, l.kind.tag :: r.tags⟩ :: rest
    else ⟨l.line, [l.kind.tag]⟩ :: r :: rest

/-- A row for each run of lexemes of one line. -/
def ofLexemes (ls : List Lexeme) : List Row := ls.foldr add []

/-- The rows show lexemes in their order, and a new one begins just where the line changes. -/
structure Runs (rows : List Row) (ls : List Lexeme) : Prop where
  shown : rows.flatMap (fun r => r.tags.map (r.line, ·)) = ls.map fun l => (l.line, l.kind.tag)
  tags_ne_nil : ∀ r ∈ rows, r.tags ≠ []
  cut : rows.IsChain (·.line ≠ ·.line)

/-- One row for each line that lexemes stand on, from the first to the last, with the tags of all
of them in their order. -/
structure Lists (rows : List Row) (ls : List Lexeme) : Prop where
  increasing : rows.Pairwise (·.line < ·.line)
  tags : ∀ r ∈ rows, r.tags ≠ [] ∧ r.tags = (ls.filter (·.line == r.line)).map (·.kind.tag)
  all : ∀ l ∈ ls, ∃ r ∈ rows, r.line = l.line

end Row

namespace Table

/-- The lexemes that a dump shows. -/
def contents (t : Table) : List Lexeme := t.toList.filter (!·.isPadding)

/-- The dump has one row for each line of the table. -/
def DumpsByLine (t : Table) : Prop :=
  ∃ rows, Row.Lists rows t.contents ∧ t.renderByLine = String.ofList (rows.flatMap Row.chars)

/-- The lines of the lexemes do not decrease. -/
def InOrder (ls : List Lexeme) : Prop := ls.Pairwise (·.line ≤ ·.line)

end Table

variable {ls : List Lexeme} {l : Lexeme} {rows rest rows' : List Row} {r r' : Row} {n : Nat}
  {written xs ys zs ws : List Char} {c : Char} {t : Table}

namespace Row

/-- What a dump whose last row is of line `n` still has to show. -/
def behind (n : Nat) : List Row → List Char
  | [] => ['\n']
  | r :: rest =>
    if r.line = n then r.tags ++ '\n' :: rest.flatMap chars
    else '\n' :: (r :: rest).flatMap chars

theorem ofLexemes_cons : ofLexemes (l :: ls) = add l (ofLexemes ls) := rfl

theorem behind_add_self : behind l.line (add l rows) = l.kind.tag :: behind l.line rows := by
  cases rows with
  | nil => simp [add, behind]
  | cons r rest =>
    by_cases hr : r.line = l.line <;> simp [add, behind, hr]

theorem flatMap_add : (add l rows).flatMap chars =
    (Text.zeroPadded 4 l.line).toList ++ ' ' :: l.kind.tag :: behind l.line rows := by
  cases rows with
  | nil => simp [add, behind, chars, heading]
  | cons r rest =>
    by_cases hr : r.line = l.line <;> simp [add, behind, chars, heading, hr]

theorem behind_add_of_ne (h : l.line ≠ n) :
    behind n (add l rows) = '\n' :: (add l rows).flatMap chars := by
  cases rows with
  | nil => simp [add, behind, h]
  | cons r rest => by_cases hr : r.line = l.line <;> simp [add, behind, h, hr]

end Row

namespace Table

def closeDump (dump : List Char × Option Nat) : List Char :=
  (if dump.2.isSome then '\n' :: dump.1 else dump.1).reverse

theorem closeDump_foldl : closeDump (ls.foldl dumpEntry (written, some n)) =
    written.reverse ++ Row.behind n (Row.ofLexemes (ls.filter (!·.isPadding))) := by
  induction ls generalizing written n with
  | nil => simp [closeDump, Row.behind, Row.ofLexemes]
  | cons l ls ih =>
    rw [List.foldl_cons]
    by_cases hp : l.isPadding
    · rw [List.filter_cons_of_neg (by simp [hp]), ← ih]
      simp [dumpEntry, hp]
    rw [List.filter_cons_of_pos (by simp [hp]), Row.ofLexemes_cons]
    by_cases hn : l.line = n
    · subst hn
      have hentry : dumpEntry (written, some l.line) l =
          (l.kind.tag :: written, some l.line) := by
        simp [dumpEntry, hp]
      rw [hentry, ih, Row.behind_add_self]
      simp
    · have hentry : dumpEntry (written, some n) l = (l.kind.tag :: ' ' ::
          (Text.zeroPadded 4 l.line).toList.reverseAux ('\n' :: written), some l.line) := by
        simp [dumpEntry, hp, Ne.symm hn]
      rw [hentry, ih, Row.behind_add_of_ne hn, Row.flatMap_add]
      simp [List.reverseAux_eq]

theorem closeDump_first : closeDump (ls.foldl dumpEntry ([], none)) =
    (Row.ofLexemes (ls.filter (!·.isPadding))).flatMap Row.chars := by
  induction ls with
  | nil => rfl
  | cons l ls ih =>
    rw [List.foldl_cons]
    by_cases hp : l.isPadding
    · rw [List.filter_cons_of_neg (by simp [hp]), ← ih]
      simp [dumpEntry, hp]
    · have hentry : dumpEntry ([], none) l = (l.kind.tag :: ' ' ::
          (Text.zeroPadded 4 l.line).toList.reverseAux [], some l.line) := by
        simp [dumpEntry, hp]
      rw [List.filter_cons_of_pos (by simp [hp]), Row.ofLexemes_cons, hentry, closeDump_foldl,
        Row.flatMap_add]
      simp [List.reverseAux_eq]

/-- The dump shows the runs of lexemes of one line. -/
theorem renderByLine_eq :
    t.renderByLine = String.ofList ((Row.ofLexemes t.contents).flatMap Row.chars) := by
  rw [renderByLine, ← Array.foldl_toList]
  exact congrArg String.ofList closeDump_first

end Table

namespace Row

theorem exists_mem_add : (∃ r ∈ add l rows, r.line = n) ↔ l.line = n ∨ ∃ r ∈ rows, r.line = n := by
  cases rows with
  | nil => simp [add]
  | cons r rest =>
    by_cases hr : r.line = l.line
    · simp [add, hr]
    · simp [add, hr]

/-- The rows are of the lines that lexemes stand on. -/
theorem exists_mem_ofLexemes : (∃ r ∈ ofLexemes ls, r.line = n) ↔ ∃ l ∈ ls, l.line = n := by
  induction ls with
  | nil => simp [ofLexemes]
  | cons l ls ih => rw [ofLexemes_cons, exists_mem_add, ih, List.exists_mem_cons_iff]

theorem pairwise_add : (add l rows).Pairwise (·.line < ·.line) ↔
    (∀ r ∈ rows, l.line ≤ r.line) ∧ rows.Pairwise (·.line < ·.line) := by
  cases rows with
  | nil => simp [add]
  | cons r rest =>
    by_cases hr : r.line = l.line
    · simp only [add, hr, if_true, List.pairwise_cons, List.forall_mem_cons, Nat.le_refl, true_and]
      constructor
      · exact fun h => ⟨fun r' hr' => Nat.le_of_lt (h.1 r' hr'), h⟩
      · exact fun h => h.2
    · simp only [add, hr, if_false, List.pairwise_cons, List.forall_mem_cons]
      constructor
      · rintro ⟨⟨hlt, hrest⟩, h⟩
        exact ⟨⟨Nat.le_of_lt hlt, fun r' hr' => Nat.le_of_lt (hrest r' hr')⟩, h⟩
      · rintro ⟨⟨hle, -⟩, hrest, h⟩
        have hlt : l.line < r.line := Nat.lt_of_le_of_ne hle (Ne.symm hr)
        exact ⟨⟨hlt, fun r' hr' => Nat.lt_trans hlt (hrest r' hr')⟩, hrest, h⟩

theorem pairwise_ofLexemes :
    (ofLexemes ls).Pairwise (·.line < ·.line) ↔ Table.InOrder ls := by
  induction ls with
  | nil => simp [ofLexemes, Table.InOrder]
  | cons l ls ih =>
    rw [ofLexemes_cons, pairwise_add, ih, Table.InOrder, Table.InOrder, List.pairwise_cons]
    refine and_congr_left fun _ => ⟨fun h m hm => ?_, fun h r hr => ?_⟩
    · obtain ⟨r, hr, hline⟩ := exists_mem_ofLexemes.mpr ⟨m, hm, rfl⟩
      exact hline ▸ h r hr
    · obtain ⟨m, hm, hline⟩ := exists_mem_ofLexemes.mp ⟨r, hr, rfl⟩
      exact hline ▸ h m hm

/-- The tags in all rows of a line. -/
def tagsOf (n : Nat) (rows : List Row) : List Char := (rows.filter (·.line == n)).flatMap tags

theorem tagsOf_add :
    tagsOf n (add l rows) = ([l].filter (·.line == n)).map (·.kind.tag) ++ tagsOf n rows := by
  by_cases hn : l.line = n
  · cases rows with
    | nil => simp [tagsOf, add, hn]
    | cons r rest => by_cases hr : r.line = n <;> simp [tagsOf, add, hn, hr]
  · cases rows with
    | nil => simp [tagsOf, add, hn]
    | cons r rest =>
      by_cases hr : r.line = l.line <;> simp [tagsOf, add, hn, hr]

theorem tagsOf_ofLexemes :
    tagsOf n (ofLexemes ls) = (ls.filter (·.line == n)).map (·.kind.tag) := by
  induction ls with
  | nil => rfl
  | cons l ls ih =>
    rw [ofLexemes_cons, tagsOf_add, ih, ← List.map_append, ← List.filter_append]
    rfl

theorem tagsOf_line (h : rows.Pairwise (·.line < ·.line)) (hr : r ∈ rows) :
    tagsOf r.line rows = r.tags := by
  induction rows with
  | nil => cases hr
  | cons first rest ih =>
    obtain ⟨hfirst, hrest⟩ := List.pairwise_cons.mp h
    rcases List.mem_cons.mp hr with rfl | hr
    · have hnone : rest.filter (·.line == r.line) = [] := by
        refine List.filter_eq_nil_iff.mpr fun r' hr' hline => ?_
        have hlt := hfirst r' hr'
        rw [beq_iff_eq.mp hline] at hlt
        exact Nat.lt_irrefl _ hlt
      simp [tagsOf, hnone]
    · have hne := Nat.ne_of_lt (hfirst r hr)
      rw [tagsOf, List.filter_cons_of_neg (by simpa using hne)]
      exact ih hrest hr

theorem Runs.add (h : Runs rows ls) : Runs (Row.add l rows) (l :: ls) := by
  obtain ⟨hshown, htags, hcut⟩ := h
  cases rows with
  | nil => exact ⟨by simp [Row.add, ← hshown], by simp [Row.add], .singleton _⟩
  | cons r rest =>
    by_cases hr : r.line = l.line
    · refine ⟨by simp [Row.add, hr, ← hshown], ?_, ?_⟩
      · simpa [Row.add, hr] using (List.forall_mem_cons.mp htags).2
      · rw [Row.add, if_pos hr]
        cases rest with
        | nil => exact .singleton _
        | cons next rest =>
          rw [List.isChain_cons_cons] at hcut ⊢
          exact ⟨hr ▸ hcut.1, hcut.2⟩
    · refine ⟨by simp [Row.add, hr, ← hshown], ?_, ?_⟩
      · simpa [Row.add, hr] using htags
      · rw [Row.add, if_neg hr, List.isChain_cons_cons]
        exact ⟨Ne.symm hr, hcut⟩

theorem runs_ofLexemes : Runs (ofLexemes ls) ls := by
  induction ls with
  | nil => exact ⟨rfl, by simp [ofLexemes], .nil⟩
  | cons l ls ih => exact ih.add

theorem lists_ofLexemes (h : Table.InOrder ls) : Lists (ofLexemes ls) ls := by
  have hincreasing := pairwise_ofLexemes.mpr h
  refine ⟨hincreasing, fun r hr => ⟨runs_ofLexemes.tags_ne_nil r hr, ?_⟩,
    fun l hl => exists_mem_ofLexemes.mpr ⟨l, hl, rfl⟩⟩
  rw [← tagsOf_line hincreasing hr, tagsOf_ofLexemes]

/-- Equal texts that are cut at the same character have equal parts. -/
theorem cut_inj (hx : c ∉ xs) (hy : c ∉ ys) (h : xs ++ c :: zs = ys ++ c :: ws) :
    xs = ys ∧ zs = ws := by
  induction xs generalizing ys with
  | nil =>
    cases ys with
    | nil => exact ⟨rfl, (List.cons.inj h).2⟩
    | cons y ys =>
      obtain ⟨rfl, -⟩ := List.cons.inj h
      exact absurd List.mem_cons_self hy
  | cons x xs ih =>
    rw [List.mem_cons, not_or] at hx
    cases ys with
    | nil => exact absurd (List.cons.inj h).1.symm hx.1
    | cons y ys =>
      rw [List.mem_cons, not_or] at hy
      obtain ⟨rfl, hrest⟩ := List.cons.inj h
      obtain ⟨rfl, rfl⟩ := ih hx.2 hy.2 hrest
      exact ⟨rfl, rfl⟩

theorem toList_zeroPadded : (Text.zeroPadded 4 n).toList =
    List.replicate (4 - (Nat.repr n).length) '0' ++ Nat.toDigits 10 n := by
  simp [Text.zeroPadded, Text.fill]

theorem isDigit_of_mem_heading (h : c ∈ r.heading) : c.isDigit := by
  rw [heading, toList_zeroPadded, List.mem_append] at h
  rcases h with h | h
  · rw [(List.mem_replicate.mp h).2]
    rfl
  · exact Nat.isDigit_of_mem_toDigits (by decide) (by decide) h

theorem line_eq_of_heading (h : r.heading = r'.heading) : r.line = r'.line := by
  have hvalue (r : Row) : Nat.ofDigitChars 10 r.heading 0 = r.line := by
    rw [heading, toList_zeroPadded, Nat.ofDigitChars_append, Nat.ofDigitChars_replicate_zero,
      Nat.mul_zero, Nat.ofDigitChars_ten_toDigits]
  rw [← hvalue r, ← hvalue r', h]

theorem not_mem_heading (h : c.isDigit = false) : c ∉ r.heading := fun hmem => by
  simp [isDigit_of_mem_heading hmem] at h

theorem chars_inj (hr : '\n' ∉ r.tags) (hr' : '\n' ∉ r'.tags)
    (h : r.chars ++ xs = r'.chars ++ ys) : r = r' ∧ xs = ys := by
  have hline {r : Row} (hr : '\n' ∉ r.tags) : '\n' ∉ r.heading ++ ' ' :: r.tags := by
    simp [not_mem_heading, hr]
  simp only [chars, List.append_assoc, List.singleton_append] at h
  rw [← List.append_assoc, ← List.append_assoc] at h
  obtain ⟨hrow, rfl⟩ := cut_inj (hline hr) (hline hr') h
  obtain ⟨hheading, htags⟩ := cut_inj (not_mem_heading rfl) (not_mem_heading rfl) hrow
  cases r
  cases r'
  exact ⟨by rw [mk.injEq]; exact ⟨line_eq_of_heading hheading, htags⟩, rfl⟩

/-- The text of rows tells the rows. -/
theorem flatMap_chars_inj (hrows : ∀ r ∈ rows, '\n' ∉ r.tags) (hrows' : ∀ r ∈ rows', '\n' ∉ r.tags)
    (h : rows.flatMap chars = rows'.flatMap chars) : rows = rows' := by
  induction rows generalizing rows' with
  | nil =>
    cases rows' with
    | nil => rfl
    | cons r' rest' => simp [chars] at h
  | cons r rest ih =>
    cases rows' with
    | nil => simp [chars] at h
    | cons r' rest' =>
      rw [List.forall_mem_cons] at hrows hrows'
      obtain ⟨rfl, hrest⟩ := chars_inj hrows.1 hrows'.1 h
      rw [ih hrows.2 hrows'.2 hrest]

theorem newline_not_mem_tags : '\n' ∉ ls.map (·.kind.tag) := by
  rw [List.mem_map]
  rintro ⟨l, -, hl⟩
  cases hk : l.kind <;> simp [hk, Kind.tag] at hl

theorem newline_not_mem_ofLexemes : ∀ r ∈ ofLexemes ls, '\n' ∉ r.tags := by
  intro r hr hmem
  have htags : '\n' ∈ tagsOf r.line (ofLexemes ls) :=
    List.mem_flatMap.mpr ⟨r, List.mem_filter.mpr ⟨hr, beq_self_eq_true _⟩, hmem⟩
  rw [tagsOf_ofLexemes] at htags
  exact newline_not_mem_tags htags

end Row

namespace Table

/-- A dump has a row for each line just when no line comes after a later one. -/
theorem dumpsByLine_iff : t.DumpsByLine ↔ InOrder t.contents := by
  constructor
  · rintro ⟨rows, hlists, htext⟩
    rw [renderByLine_eq] at htext
    have hrows : Row.ofLexemes t.contents = rows := by
      refine Row.flatMap_chars_inj Row.newline_not_mem_ofLexemes (fun r hr => ?_)
        (String.ofList_injective htext)
      rw [(hlists.tags r hr).2]
      exact Row.newline_not_mem_tags
    exact Row.pairwise_ofLexemes.mp (hrows ▸ hlists.increasing)
  · exact fun h => ⟨_, Row.lists_ofLexemes h, renderByLine_eq⟩

/-- The order of what a dump shows, place by place. -/
theorem inOrder_contents : InOrder t.contents ↔ ∀ i j l m, i < j → t.get? i = some l →
    t.get? j = some m → l.isPadding = false → m.isPadding = false → l.line ≤ m.line := by
  rw [InOrder, contents, List.pairwise_filter, List.pairwise_iff_getElem]
  simp only [get?_eq_getElem?, List.getElem?_eq_some_iff, Bool.not_eq_true']
  constructor
  · rintro h i j l m hlt ⟨hi, rfl⟩ ⟨hj, rfl⟩ hl hm
    exact h i j hi hj hlt hl hm
  · exact fun h i j hi hj hlt hl hm => h i j _ _ hlt ⟨hi, rfl⟩ ⟨hj, rfl⟩ hl hm

end Table

end Ttm.Lexeme
