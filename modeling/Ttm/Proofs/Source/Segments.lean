import Ttm.Source.Token

/-! The tokens of delimited text, and how they grow as the text is written. -/
namespace Ttm.Source.Token

/-- The tokens found so far, the last one first, and the current line. -/
def collect (found : List Token × Nat) (segment : List UInt8) : List Token × Nat :=
  if isLineMark segment then (found.1, found.2 + segment.length)
  else (⟨textOfBytes segment, found.2⟩ :: found.1, found.2)

/-- All tokens of a delimited text, however many they are. -/
def ofDelimited (text : List UInt8) : List Token :=
  ((segments text).foldl collect ([], 1)).1.reverse

variable {xs ys written : List UInt8}

theorem segments_ne_nil : segments xs ≠ [] := by
  cases xs with
  | nil => simp [segments]
  | cons x xs =>
    simp only [segments, List.foldr_cons, consByte]
    split
    · simp
    · split <;> simp

theorem segments_append_delimiter :
    segments (xs ++ Byte.delimiter :: ys) = segments xs ++ segments ys := by
  induction xs with
  | nil => simp [segments, consByte]
  | cons x xs ih =>
    simp only [segments, List.cons_append, List.foldr_cons] at ih ⊢
    rw [ih]
    have hne : segments xs ≠ [] := segments_ne_nil
    simp only [segments] at hne
    obtain ⟨first, rest, hrest⟩ := List.exists_cons_of_ne_nil hne
    rw [hrest]
    simp only [consByte, List.cons_append]
    split <;> simp

theorem segments_of_not_mem (h : Byte.delimiter ∉ xs) : segments xs = [xs] := by
  induction xs with
  | nil => rfl
  | cons x xs ih =>
    rw [List.mem_cons, not_or] at h
    have hx : segments xs = [xs] := ih h.2
    simp only [segments, List.foldr_cons] at hx ⊢
    rw [hx, consByte, if_neg (Ne.symm h.1)]

/-- A text read backwards has its segments read backwards. -/
theorem segments_reverse (xs : List UInt8) :
    segments xs.reverse = ((segments xs).map List.reverse).reverse := by
  -- A delimiter splits the text in two shorter ones.
  induction hlength : xs.length using Nat.strongRecOn generalizing xs with
  | ind n ih =>
  by_cases hmem : Byte.delimiter ∈ xs
  · obtain ⟨before, behind, rfl⟩ := List.append_of_mem hmem
    rw [List.length_append, List.length_cons] at hlength
    rw [List.reverse_append, List.reverse_cons, List.append_assoc, List.singleton_append,
      segments_append_delimiter, segments_append_delimiter,
      ih before.length (by omega) before rfl, ih behind.length (by omega) behind rfl,
      List.map_append, List.reverse_append]
  · rw [segments_of_not_mem hmem, segments_of_not_mem (mt List.mem_reverse.mp hmem)]
    rfl

theorem toNat_charOfByte (b : UInt8) : (charOfByte b).toNat = b.toNat := by
  have hvalid : b.toNat.isValidChar := Or.inl (Nat.lt_trans b.toNat_lt (by decide))
  rw [charOfByte, Char.ofNat, dif_pos hvalid]
  rfl

theorem charOfByte_injective : Function.Injective charOfByte := by
  intro b c h
  refine UInt8.toNat_inj.mp ?_
  rw [← toNat_charOfByte b, h, toNat_charOfByte]

theorem charOfByte_quote : charOfByte Byte.quote = '\'' := rfl

theorem toList_textOfBytes : (textOfBytes xs).toList = xs.map charOfByte := String.toList_ofList

theorem quote_not_mem_textOfBytes (h : Byte.quote ∉ xs) : '\'' ∉ (textOfBytes xs).toList := by
  rw [toList_textOfBytes, List.mem_map]
  rintro ⟨b, hb, heq⟩
  obtain rfl : b = Byte.quote := charOfByte_injective heq
  exact h hb

/-- The tokens of text that was written last byte first, and the line it has reached. -/
def ofWritten (written : List UInt8) : List Token × Nat :=
  (segments written.reverse).foldl collect ([], 1)

theorem ofDelimited_reverse : ofDelimited written.reverse = (ofWritten written).1.reverse := rfl

/-- The next byte begins a segment. -/
def Closed (written : List UInt8) : Prop := ∀ last ∈ written.head?, last = Byte.delimiter

theorem collect_of_not_lineMark {segment : List UInt8} (h : isLineMark segment = false)
    (found : List Token × Nat) :
    collect found segment = (⟨textOfBytes segment, found.2⟩ :: found.1, found.2) := by
  simp [collect, h]

theorem ofWritten_delimiter : ofWritten (Byte.delimiter :: written) = ofWritten written := by
  rw [ofWritten, List.reverse_cons, segments_append_delimiter, List.foldl_append]
  rfl

/-- What is found stays found. -/
theorem mem_foldl_collect {found : List Token × Nat} {token : Token} {rest : List (List UInt8)}
    (h : token ∈ found.1) : token ∈ (rest.foldl collect found).1 := by
  induction rest generalizing found with
  | nil => exact h
  | cons segment rest ih =>
    refine ih ?_
    unfold collect
    split
    · exact h
    · exact List.mem_cons_of_mem _ h

/-- A segment written behind a delimiter is read by itself. -/
theorem ofWritten_append (hw : Closed written) (hx : Byte.delimiter ∉ xs) :
    ofWritten (xs.reverse ++ written) = collect (ofWritten written) xs := by
  cases written with
  | nil =>
    rw [List.append_nil, ofWritten, List.reverse_reverse, segments_of_not_mem hx]
    rfl
  | cons last written =>
    have hlast : last = Byte.delimiter := hw last rfl
    subst hlast
    rw [ofWritten_delimiter, ofWritten, List.reverse_append, List.reverse_reverse,
      List.reverse_cons, List.append_assoc, List.singleton_append, segments_append_delimiter,
      segments_of_not_mem hx, List.foldl_append]
    rfl

end Ttm.Source.Token
