/-
Positions on the boundaries of characters. The position of a boundary counts the line breaks in front
of it and the UTF-16 units behind the last of them. A boundary further on has a place further on, so
that a line and a column belong to one boundary at most.
-/
import MessageCatalog.Proofs.Code.Tracking

namespace MessageCatalog.Text

open MessageCatalog.Code

/-- An offset at the start of a text or at the end of one of its characters. -/
def OnBoundary (cs : List Char) (offset : Nat) : Prop :=
  ∃ before after, before ++ after = cs ∧ byteLength before = offset

/-- The line and the column of a position. -/
def Position.place (p : Position) : Nat × Nat := (p.line, p.column)

theorem Precedes.irrefl (place : Nat × Nat) : ¬ Precedes place place := by
  rintro (h | ⟨-, h⟩) <;> exact Nat.lt_irrefl _ h

section

variable {cs : List Char} {i j : Nat}

/-- The position behind the first part of a text, told by that part alone. -/
theorem position_boundary {before after : List Char} (h : before ++ after = cs) :
    (LineIndex.ofText cs).position (byteLength before) =
      ⟨1 + before.count '\n', units (before.rtakeWhile (· ≠ '\n')), byteLength before⟩ := by
  rw [← h, position_append, advance_line, advance_column, Nat.zero_add, Nat.add_comm]

/-- Of two boundaries the first one has the first place. -/
theorem place_precedes (hi : OnBoundary cs i) (hj : OnBoundary cs j) (hlt : i < j) :
    Precedes ((LineIndex.ofText cs).position i).place ((LineIndex.ofText cs).position j).place := by
  obtain ⟨a, behind, rfl, rfl⟩ := hi
  obtain ⟨b, rest, hb, rfl⟩ := hj
  -- the text in front of the second one is longer, by what stands between the two
  obtain ⟨between, rfl, hbehind⟩ : ∃ between, b = a ++ between ∧ behind = between ++ rest := by
    rcases List.append_eq_append_iff.1 hb with ⟨between, rfl, -⟩ | ⟨between, rfl, hbehind⟩
    · rw [byteLength_append] at hlt
      omega
    · exact ⟨between, rfl, hbehind⟩
  have hne : between ≠ [] := by
    rintro rfl
    rw [List.append_nil] at hlt
    exact Nat.lt_irrefl _ hlt
  have hmoved := precedes_advance hne (advance (0, 0) a)
  rw [← advance_append] at hmoved
  have hj := position_append (a ++ between) rest
  rw [hb] at hj
  rw [position_append, hj]
  rcases hmoved with hline | ⟨hline, hcolumn⟩
  · exact .inl (Nat.succ_lt_succ hline)
  · exact .inr ⟨congrArg (· + 1) hline, hcolumn⟩

theorem place_injective (hi : OnBoundary cs i) (hj : OnBoundary cs j)
    (h : ((LineIndex.ofText cs).position i).place = ((LineIndex.ofText cs).position j).place) :
    i = j := by
  rcases Nat.lt_trichotomy i j with hlt | heq | hlt
  · exact absurd (h ▸ place_precedes hi hj hlt) (Precedes.irrefl _)
  · exact heq
  · exact absurd (h ▸ place_precedes hj hi hlt) (Precedes.irrefl _)

/-- Past the end of a text every offset is its end. -/
theorem position_past (h : byteLength cs ≤ i) :
    (LineIndex.ofText cs).position i = (LineIndex.ofText cs).position (byteLength cs) := by
  have hmin : min i (LineIndex.ofText cs).size = min (byteLength cs) (LineIndex.ofText cs).size := by
    show min i (byteLength cs) = min (byteLength cs) (byteLength cs)
    omega
  simp only [LineIndex.position, hmin]

/-- The line of a position is looked up inside the table of lines. -/
theorem position_lookup (cs : List Char) (offset : Nat) :
    ∃ line start, (LineIndex.ofText cs).lineOf? (min offset (byteLength cs)) = some (line, start) ∧
      line < (LineIndex.ofText cs).starts.length ∧
      ((LineIndex.ofText cs).position offset).line = line + 1 := by
  obtain ⟨line, start, hlookup, hline, -⟩ := lineOf?_ofText cs (min offset (byteLength cs))
  refine ⟨line, start, hlookup, hline, ?_⟩
  show (((LineIndex.ofText cs).lineOf? (min offset (byteLength cs))).getD (0, 0)).1 + 1 = _
  rw [hlookup, Option.getD_some]

end

/--
On a boundary the position is the number of line breaks in front of it, counted from one, the UTF-16
units behind the last of them, and the offset itself; past the end it is that of the end. Along the
boundaries the places increase, so that no two boundaries share one. Whatever the offset, its line is
found in the table of lines, and neither line nor column outgrows the text.
-/
theorem position_exact (cs : List Char) :
    (∀ before after, before ++ after = cs → (LineIndex.ofText cs).position (byteLength before) =
      ⟨1 + before.count '\n', units (before.rtakeWhile (· ≠ '\n')), byteLength before⟩) ∧
    (∀ offset, byteLength cs ≤ offset →
      (LineIndex.ofText cs).position offset = (LineIndex.ofText cs).position (byteLength cs)) ∧
    (∀ i j, OnBoundary cs i → OnBoundary cs j → i < j →
      Precedes ((LineIndex.ofText cs).position i).place ((LineIndex.ofText cs).position j).place) ∧
    (∀ i j, OnBoundary cs i → OnBoundary cs j →
      ((LineIndex.ofText cs).position i).place = ((LineIndex.ofText cs).position j).place → i = j) ∧
    (∀ offset, ∃ line start,
      (LineIndex.ofText cs).lineOf? (min offset (byteLength cs)) = some (line, start) ∧
        line < (LineIndex.ofText cs).starts.length ∧
        ((LineIndex.ofText cs).position offset).line = line + 1) ∧
    ∀ offset, ((LineIndex.ofText cs).position offset).line - 1 ≤ byteLength cs ∧
      ((LineIndex.ofText cs).position offset).column ≤ byteLength cs :=
  ⟨fun _ _ => position_boundary, fun _ => position_past, fun _ _ => place_precedes,
    fun _ _ => place_injective, position_lookup cs, position_le cs⟩

end MessageCatalog.Text
