/-
The position of a byte offset is where writing the text in front of it ends: as many line breaks as
the text holds, and the UTF-16 units behind the last of them.
-/
import MessageCatalog.Proofs.Code.Writer

namespace MessageCatalog.Text

open MessageCatalog.Code

/-! ## Lengths -/

theorem utf8Size_pos (c : Char) : 0 < c.utf8Size := Char.utf8Size_pos c

theorem unitsOf_le_utf8Size (c : Char) : unitsOf c ≤ c.utf8Size := by
  by_cases h : c.val ≤ 0xFFFF
  · rw [unitsOf, if_pos h]
    exact utf8Size_pos c
  · have h1 : ¬ c.val ≤ 0x7F := fun hle => h (UInt32.le_trans hle (by decide))
    have h2 : ¬ c.val ≤ 0x7FF := fun hle => h (UInt32.le_trans hle (by decide))
    have hsize : c.utf8Size = 4 := (if_neg h1).trans ((if_neg h2).trans (if_neg h))
    rw [unitsOf, if_neg h, hsize]
    omega

theorem units_le_byteLength : ∀ cs : List Char, units cs ≤ byteLength cs
  | [] => Nat.le_refl 0
  | c :: cs => Nat.add_le_add (unitsOf_le_utf8Size c) (units_le_byteLength cs)

theorem length_le_byteLength : ∀ cs : List Char, cs.length ≤ byteLength cs
  | [] => Nat.le_refl 0
  | c :: cs => by
    have hc := utf8Size_pos c
    have hcs := length_le_byteLength cs
    rw [byteLength, List.length_cons]
    omega

theorem unitsOf_pos (c : Char) : 0 < unitsOf c := by
  unfold unitsOf
  split <;> omega

theorem units_pos {cs : List Char} (h : cs ≠ []) : 0 < units cs := by
  cases cs with
  | nil => exact absurd rfl h
  | cons c cs => exact Nat.lt_of_lt_of_le (unitsOf_pos c) (Nat.le_add_right _ _)

theorem byteLength_le_of_suffix {a b : List Char} (h : a <:+ b) : byteLength a ≤ byteLength b := by
  obtain ⟨before, rfl⟩ := h
  rw [byteLength_append]
  exact Nat.le_add_left _ _

/-! ## Cuts -/

theorem cut?_append (a b : List Char) : cut? (byteLength a) (a ++ b) = some (a, b) := by
  induction a with
  | nil => rw [byteLength, cut?]; rfl
  | cons c a ih =>
    obtain ⟨n, hn⟩ : ∃ n, c.utf8Size + byteLength a = n + 1 :=
      ⟨c.utf8Size + byteLength a - 1, by have := utf8Size_pos c; omega⟩
    rw [byteLength, hn, List.cons_append, cut?, if_neg (by omega),
      show n + 1 - c.utf8Size = byteLength a by omega, ih]
    rfl

/-- A text is taken apart in one way at a number of bytes. -/
theorem append_inj_of_byteLength {a a' b b' : List Char} (h : a ++ b = a' ++ b')
    (hlength : byteLength a = byteLength a') : a = a' ∧ b = b' := by
  have hcut := cut?_append a b
  rw [h, hlength, cut?_append] at hcut
  obtain ⟨ha, hb⟩ := Prod.mk.inj (Option.some.inj hcut)
  exact ⟨ha.symm, hb.symm⟩

theorem eq_nil_of_byteLength {cs : List Char} (h : byteLength cs = 0) : cs = [] :=
  (append_inj_of_byteLength (List.append_nil cs) h).1

/-- The text between two offsets that are at the ends of characters. -/
theorem slice?_append (a b c : List Char) :
    slice? (a ++ (b ++ c)) (byteLength a) (byteLength (a ++ b)) = some b := by
  have hcut : cut? (byteLength (a ++ b) - byteLength a) (b ++ c) = some (b, c) := by
    rw [byteLength_append, Nat.add_sub_cancel_left, cut?_append]
  unfold slice?
  rw [if_neg (by rw [byteLength_append]; omega), cut?_append]
  simp only [Option.bind_eq_bind, Option.bind_some, hcut]
  rfl

/-- A slice stands between what is in front of it and what is behind it. -/
theorem slice?_eq_some {cs middle : List Char} {start stop : Nat}
    (h : slice? cs start stop = some middle) :
    ∃ before after, cs = before ++ middle ++ after ∧ byteLength before = start := by
  unfold slice? at h
  split at h
  · cases h
  · obtain ⟨⟨before, tail⟩, hbefore, h⟩ := Option.bind_eq_some_iff.1 h
    obtain ⟨⟨front, after⟩, hfront, h⟩ := Option.bind_eq_some_iff.1 h
    cases h
    obtain ⟨hcs, hlength⟩ := cut?_eq_some hbefore
    obtain ⟨htail, -⟩ := cut?_eq_some hfront
    refine ⟨before, after, ?_, hlength⟩
    rw [← hcs, ← htail, List.append_assoc]

/-! ## Places -/

/-- On one line only the column moves. -/
theorem advance_of_not_mem {cs : List Char} (h : '\n' ∉ cs) (place : Nat × Nat) :
    advance place cs = (place.1, place.2 + units cs) := by
  induction cs generalizing place with
  | nil => rfl
  | cons c cs ih =>
    obtain ⟨hc, hcs⟩ := not_or.1 (mt List.mem_cons.2 h)
    rw [advance, if_neg (Ne.symm hc), ih hcs, units, Nat.add_assoc]

/-- A text has one line, or a last line behind a line break. -/
theorem last_line (cs : List Char) :
    '\n' ∉ cs ∨ ∃ before line, cs = before ++ '\n' :: line ∧ '\n' ∉ line := by
  induction cs with
  | nil => exact Or.inl (List.not_mem_nil)
  | cons c cs ih =>
    rcases ih with h | ⟨before, line, rfl, h⟩
    · by_cases hc : c = '\n'
      · subst hc
        exact Or.inr ⟨[], cs, rfl, h⟩
      · refine Or.inl fun hmem => ?_
        rcases List.mem_cons.1 hmem with he | hmem
        · exact hc he.symm
        · exact h hmem
    · exact Or.inr ⟨c :: before, line, rfl, h⟩

theorem advance_last_line {line : List Char} (h : '\n' ∉ line) (place : Nat × Nat)
    (before : List Char) :
    advance place (before ++ '\n' :: line) = ((advance place before).1 + 1, units line) := by
  rw [advance_append, advance, if_pos rfl, advance_of_not_mem h, Nat.zero_add]

theorem advance_column_le (place : Nat × Nat) (cs : List Char) :
    (advance place cs).2 ≤ place.2 + units cs := by
  rcases last_line cs with h | ⟨before, line, rfl, h⟩
  · exact Nat.le_of_eq (congrArg Prod.snd (advance_of_not_mem h place))
  · rw [advance_last_line h, units_append, units]
    omega

theorem advance_line_le_units (place : Nat × Nat) (cs : List Char) :
    (advance place cs).1 ≤ place.1 + units cs := by
  induction cs generalizing place with
  | nil => exact Nat.le_refl _
  | cons c cs ih =>
    have hpos := unitsOf_pos c
    rw [advance, units]
    split
    · have hle := ih (place.1 + 1, 0)
      simp only at hle
      omega
    · have hle := ih (place.1, place.2 + unitsOf c)
      simp only at hle
      omega

theorem advance_line_le (place : Nat × Nat) (cs : List Char) :
    (advance place cs).1 ≤ place.1 + byteLength cs :=
  Nat.le_trans (advance_line_le_units place cs) (Nat.add_le_add_left (units_le_byteLength cs) _)

/-! ## Line starts -/

theorem lineStartsFrom_append (offset : Nat) (a b : List Char) :
    lineStartsFrom offset (a ++ b) =
      lineStartsFrom offset a ++ lineStartsFrom (offset + byteLength a) b := by
  induction a generalizing offset with
  | nil => rfl
  | cons c a ih =>
    rw [List.cons_append, lineStartsFrom, lineStartsFrom, ih, byteLength, Nat.add_assoc]
    split <;> rfl

theorem lineStartsFrom_of_not_mem {cs : List Char} (h : '\n' ∉ cs) (offset : Nat) :
    lineStartsFrom offset cs = [] := by
  induction cs generalizing offset with
  | nil => rfl
  | cons c cs ih =>
    obtain ⟨hc, hcs⟩ := not_or.1 (mt List.mem_cons.2 h)
    rw [lineStartsFrom, if_neg (Ne.symm hc), ih hcs]

theorem mem_lineStartsFrom {cs : List Char} {offset start : Nat}
    (h : start ∈ lineStartsFrom offset cs) : offset < start ∧ start ≤ offset + byteLength cs := by
  induction cs generalizing offset with
  | nil => cases h
  | cons c cs ih =>
    have hc := utf8Size_pos c
    rw [lineStartsFrom] at h
    rw [byteLength]
    split at h
    · rcases List.mem_cons.1 h with rfl | h
      · omega
      · have := ih h
        omega
    · have := ih h
      omega

theorem length_lineStartsFrom (cs : List Char) (offset : Nat) (place : Nat × Nat) :
    (advance place cs).1 = place.1 + (lineStartsFrom offset cs).length := by
  induction cs generalizing offset place with
  | nil => rfl
  | cons c cs ih =>
    rw [advance, lineStartsFrom, ih (offset + c.utf8Size)]
    split
    · rw [List.length_cons]
      omega
    · rfl

/-- A line and column in front of another one. -/
def Precedes (a b : Nat × Nat) : Prop := a.1 < b.1 ∨ a.1 = b.1 ∧ a.2 < b.2

/-- A text that is not empty moves the place on. -/
theorem precedes_advance {cs : List Char} (h : cs ≠ []) (place : Nat × Nat) :
    Precedes place (advance place cs) := by
  rcases last_line cs with hline | ⟨before, line, rfl, hline⟩
  · obtain ⟨c, rest, rfl⟩ := List.exists_cons_of_ne_nil h
    have hpos := unitsOf_pos c
    rw [advance_of_not_mem hline, units]
    exact .inr ⟨rfl, by simp only; omega⟩
  · have hlines := length_lineStartsFrom before 0 place
    rw [advance_last_line hline]
    exact .inl (by simp only; omega)

theorem lineStartsFrom_increasing (cs : List Char) (offset : Nat) :
    (lineStartsFrom offset cs).Pairwise (· < ·) := by
  induction cs generalizing offset with
  | nil => exact .nil
  | cons c cs ih =>
    rw [lineStartsFrom]
    split
    · exact .cons (fun _ hstart => (mem_lineStartsFrom hstart).1) (ih _)
    · exact ih _

theorem starts_increasing (cs : List Char) : (LineIndex.ofText cs).starts.Pairwise (· < ·) :=
  .cons (fun _ hstart => (mem_lineStartsFrom hstart).1) (lineStartsFrom_increasing cs 0)

/-! ## The table of lines -/

section

variable {front back : List Nat} {value : Nat}

theorem search_hit (hfront : ∀ n ∈ front, n < value) (back : List Nat) :
    search (front ++ value :: back) value = .ok front.length := by
  have hplace : (front ++ value :: back).idxOf? value = some front.length := by
    induction front with
    | nil => rw [List.nil_append, List.idxOf?_cons, if_pos (beq_self_eq_true value)]; rfl
    | cons n front ih =>
      obtain ⟨hn, hfront⟩ := List.forall_mem_cons.1 hfront
      rw [List.cons_append, List.idxOf?_cons, beq_false_of_ne (Nat.ne_of_lt hn), ih hfront]
      rfl
  rw [search, hplace]

theorem search_miss (hfront : ∀ n ∈ front, n < value) (hback : ∀ n ∈ back, value < n) :
    search (front ++ back) value = .error front.length := by
  have hplace : (front ++ back).idxOf? value = none := by
    rw [List.idxOf?_eq_none_iff, List.mem_append, not_or]
    exact ⟨fun h => Nat.lt_irrefl _ (hfront _ h), fun h => Nat.lt_irrefl _ (hback _ h)⟩
  have hbehind : back.takeWhile (· < value) = [] := by
    cases back with
    | nil => rfl
    | cons n back =>
      have hn := hback n List.mem_cons_self
      exact List.takeWhile_cons_of_neg (by simp only [decide_eq_true_eq]; omega)
  rw [search, hplace, List.takeWhile_append_of_pos fun n hn => decide_eq_true (hfront n hn), hbehind,
    List.append_nil]

/-- The last start that is not behind an offset is looked up, whether the offset is a start or not. -/
theorem lineOf?_eq {index : LineIndex} {start offset : Nat}
    (hstarts : index.starts = front ++ start :: back) (hincreasing : index.starts.Pairwise (· < ·))
    (hstart : start ≤ offset) (hback : ∀ n ∈ back, offset < n) :
    index.lineOf? offset = some (front.length, start) := by
  rw [hstarts, List.pairwise_append] at hincreasing
  have hfront : ∀ n ∈ front, n < start := fun n hn => hincreasing.2.2 n hn start List.mem_cons_self
  have hentry : index.starts[front.length]? = some start := by
    rw [hstarts, List.getElem?_append_right (Nat.le_refl _), Nat.sub_self, List.getElem?_cons_zero]
  unfold LineIndex.lineOf?
  rcases Nat.eq_or_lt_of_le hstart with rfl | hlt
  · rw [hstarts, search_hit hfront, ← hstarts]
    simp only [Option.bind_eq_bind, Option.bind_some, hentry]
    rfl
  · -- the offset would be put in right behind the start
    have hmiss : search index.starts offset = .error (front.length + 1) := by
      have hbefore : ∀ n ∈ front ++ [start], n < offset :=
        List.forall_mem_append.2 ⟨fun n hn => Nat.lt_trans (hfront n hn) hlt,
          List.forall_mem_singleton.2 hlt⟩
      have hsearch := search_miss hbefore hback
      rwa [List.append_assoc, List.singleton_append, List.length_append, ← hstarts] at hsearch
    rw [hmiss]
    simp only [Option.bind_eq_bind, Option.bind_some, hentry]
    rfl

end

/-- An increasing list has a last entry that is not behind an offset, if its first one is not. -/
theorem last_entry : ∀ {first offset : Nat} {rest : List Nat}, (first :: rest).Pairwise (· < ·) →
    first ≤ offset → ∃ front start back, first :: rest = front ++ start :: back ∧
      start ≤ offset ∧ ∀ n ∈ back, offset < n
  | first, _, [], _, hfirst => ⟨[], first, [], rfl, hfirst, nofun⟩
  | first, offset, next :: rest, hincreasing, hfirst => by
    by_cases hnext : next ≤ offset
    · obtain ⟨front, start, back, hsplit, hstart, hback⟩ := last_entry hincreasing.of_cons hnext
      exact ⟨first :: front, start, back, by rw [hsplit, List.cons_append], hstart, hback⟩
    · have hlt : offset < next := Nat.not_le.1 hnext
      refine ⟨[], first, next :: rest, rfl, hfirst, List.forall_mem_cons.2 ⟨hlt, fun n hn => ?_⟩⟩
      exact Nat.lt_trans hlt (List.rel_of_pairwise_cons hincreasing.of_cons hn)

/-- Every offset is looked up in the table of a text. -/
theorem lineOf?_ofText (cs : List Char) (offset : Nat) :
    ∃ line start, (LineIndex.ofText cs).lineOf? offset = some (line, start) ∧
      line < (LineIndex.ofText cs).starts.length ∧ start ≤ offset := by
  obtain ⟨front, start, back, hstarts, hstart, hback⟩ :=
    last_entry (starts_increasing cs) (Nat.zero_le offset)
  refine ⟨front.length, start, lineOf?_eq hstarts (starts_increasing cs) hstart hback, ?_, hstart⟩
  show front.length < (0 :: lineStartsFrom 0 cs).length
  rw [hstarts, List.length_append, List.length_cons]
  omega

/-! ## Positions -/

/-- The position behind the first part of a text. -/
theorem position_append (a b : List Char) :
    (LineIndex.ofText (a ++ b)).position (byteLength a) =
      ⟨(advance (0, 0) a).1 + 1, (advance (0, 0) a).2, byteLength a⟩ := by
  have hmin : min (byteLength a) (LineIndex.ofText (a ++ b)).size = byteLength a := by
    show min (byteLength a) (byteLength (a ++ b)) = byteLength a
    rw [byteLength_append]
    omega
  have hback : ∀ n ∈ lineStartsFrom (0 + byteLength a) b, byteLength a < n := by
    intro n hn
    have := (mem_lineStartsFrom hn).1
    omega
  -- the column is measured from the start of the last line, wherever that is
  have hline : ∃ start text, (LineIndex.ofText (a ++ b)).lineOf? (byteLength a) =
      some ((advance (0, 0) a).1, start) ∧ slice? (a ++ b) start (byteLength a) = some text ∧
        units text = (advance (0, 0) a).2 := by
    rcases last_line a with h | ⟨before, line, rfl, h⟩
    · have hstarts : (LineIndex.ofText (a ++ b)).starts =
          [] ++ 0 :: lineStartsFrom (0 + byteLength a) b := by
        show 0 :: lineStartsFrom 0 (a ++ b) = _
        rw [lineStartsFrom_append, lineStartsFrom_of_not_mem h]
        rfl
      rw [advance_of_not_mem h]
      exact ⟨0, a, lineOf?_eq hstarts (starts_increasing _) (Nat.zero_le _) hback,
        slice?_append [] a b, (Nat.zero_add _).symm⟩
    · have hstarts : (LineIndex.ofText (before ++ '\n' :: line ++ b)).starts =
          (0 :: lineStartsFrom 0 before) ++ byteLength (before ++ ['\n']) ::
            lineStartsFrom (0 + byteLength (before ++ '\n' :: line)) b := by
        show 0 :: lineStartsFrom 0 (before ++ '\n' :: line ++ b) = _
        rw [lineStartsFrom_append, lineStartsFrom_append, lineStartsFrom, if_pos rfl,
          lineStartsFrom_of_not_mem h, byteLength_append before ['\n'], Nat.zero_add]
        simp [byteLength]
      have hlength : (0 :: lineStartsFrom 0 before).length = (advance (0, 0) before).1 + 1 := by
        rw [length_lineStartsFrom before 0, Nat.zero_add, List.length_cons]
      have hstart : byteLength (before ++ ['\n']) ≤ byteLength (before ++ '\n' :: line) := by
        simp only [byteLength_append, byteLength]
        omega
      have hslice := slice?_append (before ++ ['\n']) line b
      rw [← List.append_assoc, List.append_assoc before, List.singleton_append] at hslice
      rw [advance_last_line h, ← hlength]
      exact ⟨_, line, lineOf?_eq hstarts (starts_increasing _) hstart hback, hslice, rfl⟩
  obtain ⟨start, text, hlookup, hslice, hunits⟩ := hline
  unfold LineIndex.position
  simp only [hmin, hlookup, Option.getD_some]
  rw [show (LineIndex.ofText (a ++ b)).source = a ++ b from rfl, hslice]
  simp only [hunits]

/-- Lines and columns are not larger than the text, wherever they are asked for. -/
theorem position_le (cs : List Char) (offset : Nat) :
    ((LineIndex.ofText cs).position offset).line - 1 ≤ byteLength cs ∧
      ((LineIndex.ofText cs).position offset).column ≤ byteLength cs := by
  have hmin : min offset (LineIndex.ofText cs).size ≤ byteLength cs := Nat.min_le_right _ _
  have hstarts : (LineIndex.ofText cs).starts.length ≤ byteLength cs + 1 := by
    have hline := advance_line_le (0, 0) cs
    rw [length_lineStartsFrom cs 0] at hline
    show (lineStartsFrom 0 cs).length + 1 ≤ _
    simp only at hline
    omega
  obtain ⟨line, start, hlookup, hline, -⟩ :=
    lineOf?_ofText cs (min offset (LineIndex.ofText cs).size)
  unfold LineIndex.position
  simp only [hlookup, Option.getD_some]
  constructor
  · omega
  · split
    · rename_i text hslice
      obtain ⟨before, after, hcs, -⟩ := slice?_eq_some hslice
      replace hcs : cs = before ++ text ++ after := hcs
      have hunits := units_le_byteLength text
      rw [hcs, byteLength_append, byteLength_append]
      omega
    · exact Nat.le_trans (Nat.sub_le _ _) hmin

end MessageCatalog.Text
