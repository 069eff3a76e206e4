/-
Quoted strings. What is written between quotes is read back, whatever the string holds and whatever
stands behind it, and takes no line break.
-/
import MessageCatalog.Json.Read
import MessageCatalog.Json.Write

namespace MessageCatalog.Json

open MessageCatalog.Text

/-! ## Escapes -/

theorem hexDigits_control : ∀ n < 0x20,
    ['0', '0', hexDigit (n / 16), hexDigit n].all isHexDigit = true ∧
      digitsValue 16 ['0', '0', hexDigit (n / 16), hexDigit n] = n := by decide

theorem readHex4?_control {n : Nat} (h : n < 0x20) (rest : List Char) :
    readHex4? ('0' :: '0' :: hexDigit (n / 16) :: hexDigit n :: rest) = some (n, rest) := by
  obtain ⟨hall, hvalue⟩ := hexDigits_control n h
  rw [readHex4?, if_pos hall, hvalue]

theorem not_surrogate_control : ∀ n < 0x20,
    isHighSurrogate n = false ∧ isLowSurrogate n = false := by decide

theorem readEscape?_control {c : Char} (h : c.toNat < 0x20) (rest : List Char) :
    readEscape? ('u' :: '0' :: '0' :: hexDigit (c.toNat / 16) :: hexDigit c.toNat :: rest) =
      some (c, rest) := by
  obtain ⟨hhigh, hlow⟩ := not_surrogate_control c.toNat h
  simp only [readEscape?, readHex4?_control h, Option.bind_eq_bind, Option.bind_some, hhigh, hlow,
    Bool.false_eq_true, if_false, Char.ofNat_toNat]

/-- A printable character of ASCII. -/
def isPrintable (c : Char) : Bool := 0x20 ≤ c.toNat && c.toNat < 0x7F

theorem hexDigit_printable (n : Nat) : isPrintable (hexDigit n) = true := by
  have h : ∀ m < 16, isPrintable ((Nat.toDigits 16 m).headD '0') = true := by decide
  exact h _ (Nat.mod_lt n (by decide))

/-- A character is written as an escape that is read as the character, or as itself. -/
theorem escapeChar_cases (c : Char) :
    (∃ body, escapeChar c = '\\' :: body ∧ body.all isPrintable = true ∧
      ∀ rest, readEscape? (body ++ rest) = some (c, rest)) ∨
    (escapeChar c = [c] ∧ ¬ c.toNat < 0x20 ∧ c ≠ '"' ∧ c ≠ '\\') := by
  unfold escapeChar
  split
  · exact .inl ⟨['"'], rfl, by decide, fun rest => rfl⟩
  · exact .inl ⟨['\\'], rfl, by decide, fun rest => rfl⟩
  · exact .inl ⟨['b'], rfl, by decide, fun rest => rfl⟩
  · exact .inl ⟨['f'], rfl, by decide, fun rest => rfl⟩
  · exact .inl ⟨['n'], rfl, by decide, fun rest => rfl⟩
  · exact .inl ⟨['r'], rfl, by decide, fun rest => rfl⟩
  · exact .inl ⟨['t'], rfl, by decide, fun rest => rfl⟩
  · rename_i hquote hback _ _ _ _ _
    split
    · rename_i hcontrol
      refine .inl ⟨_, rfl, ?_, readEscape?_control hcontrol⟩
      simp only [List.all_cons, hexDigit_printable]
      rfl
    · rename_i hcontrol
      exact .inr ⟨rfl, hcontrol, hquote, hback⟩

/-- What is written for a character is printable, or it is the character. -/
theorem mem_escapeChar {b c : Char} (h : b ∈ escapeChar c) :
    isPrintable b = true ∨ (b = c ∧ ¬ c.toNat < 0x20) := by
  rcases escapeChar_cases c with ⟨body, heq, hbody, -⟩ | ⟨heq, hcontrol, -⟩
  · rw [heq] at h
    rcases List.mem_cons.1 h with rfl | h
    · exact .inl (by decide)
    · exact .inl (List.all_eq_true.1 hbody b h)
  · rw [heq] at h
    exact .inr ⟨List.mem_singleton.1 h, hcontrol⟩

theorem escapeChar_visible {b c : Char} (h : b ∈ escapeChar c) : ¬ b.toNat < 0x20 := by
  rcases mem_escapeChar h with hprintable | ⟨rfl, hcontrol⟩
  · simp only [isPrintable, Bool.and_eq_true, decide_eq_true_eq] at hprintable
    omega
  · exact hcontrol

theorem readString?_escapeChar (c : Char) (fuel : Nat) (rest : List Char) :
    readString? (fuel + 1) (escapeChar c ++ rest) =
      (readString? fuel rest).map fun (tail, rest) => (c :: tail, rest) := by
  rcases escapeChar_cases c with ⟨body, heq, -, hread⟩ | ⟨heq, hcontrol, hquote, hback⟩
  · rw [heq, List.cons_append]
    simp only [readString?, hread, Option.bind_eq_bind, Option.bind_some]
    cases readString? fuel rest <;> rfl
  · rw [heq, List.singleton_append, readString?]
    · rw [if_neg hcontrol]
      cases readString? fuel rest <;> rfl
    · exact hquote
    · exact hback

/-! ## Bodies of strings -/

/-- What every character is written as is read back as the character. -/
def ReadsBack (write : Char → List Char) : Prop :=
  ∀ c fuel rest, readString? (fuel + 1) (write c ++ rest) =
    (readString? fuel rest).map fun (tail, rest) => (c :: tail, rest)

theorem readsBack_escapeChar : ReadsBack escapeChar := readString?_escapeChar

section

variable {write : Char → List Char}

/-- Without a character nothing is read back. -/
theorem ReadsBack.length_pos (h : ReadsBack write) (c : Char) : 0 < (write c).length := by
  refine List.length_pos_iff.2 fun hnil => ?_
  have hread := h c 0 ['"']
  rw [hnil] at hread
  cases hread

theorem ReadsBack.length_le (h : ReadsBack write) (cs : List Char) :
    cs.length ≤ (cs.flatMap write).length := by
  induction cs with
  | nil => exact Nat.le_refl 0
  | cons c cs ih =>
    have := h.length_pos c
    rw [List.flatMap_cons, List.length_append, List.length_cons]
    omega

theorem ReadsBack.readString? (h : ReadsBack write) {cs : List Char} {fuel : Nat} (hfuel : cs.length < fuel)
    (rest : List Char) : readString? fuel (cs.flatMap write ++ '"' :: rest) = some (cs, rest) := by
  induction cs generalizing fuel with
  | nil =>
    cases fuel with
    | zero => cases hfuel
    | succ fuel => rfl
  | cons c cs ih =>
    cases fuel with
    | zero => cases hfuel
    | succ fuel =>
      rw [List.flatMap_cons, List.append_assoc, h, ih (Nat.lt_of_succ_lt_succ hfuel)]
      rfl

/-- The string after an opening quote, and the text behind its closing quote. -/
theorem ReadsBack.readString?_body (h : ReadsBack write) (cs rest : List Char) :
    Json.readString? ((cs.flatMap write ++ '"' :: rest).length + 1) (cs.flatMap write ++ '"' :: rest) =
      some (cs, rest) := by
  refine h.readString? ?_ rest
  have := h.length_le cs
  rw [List.length_append]
  omega

end

/-! ## Strings -/

theorem toList_quoted (s : String) : (quoted s).toList = '"' :: (escape s.toList ++ ['"']) := by
  rw [quoted, String.toList_ofList]
  rfl

theorem readString?_quoted (s : String) (rest : List Char) :
    readString? ((escape s.toList ++ '"' :: rest).length + 1) (escape s.toList ++ '"' :: rest) =
      some (s.toList, rest) :=
  readsBack_escapeChar.readString?_body s.toList rest

/-- A written string is the one value of its text. -/
theorem read?_quoted (s : String) : read? (quoted s) = some (.string s) := by
  have hskip : skipBlanks ('"' :: (escape s.toList ++ ['"'])) = '"' :: (escape s.toList ++ ['"']) :=
    List.dropWhile_cons_of_neg (by decide)
  have hvalue : readValue? ((quoted s).toList.length + 1) (quoted s).toList = some (.string s, []) := by
    rw [toList_quoted, readValue?, hskip]
    simp only [readString?_quoted, Option.bind_eq_bind, Option.bind_some, String.ofList_toList]
    rfl
  rw [read?]
  simp only [hvalue, Option.bind_eq_bind, Option.bind_some]
  rfl

theorem newline_not_mem_escape (cs : List Char) : '\n' ∉ escape cs := by
  intro h
  obtain ⟨c, -, hc⟩ := List.mem_flatMap.1 h
  exact escapeChar_visible hc (by decide)

/-- A written string stays on one line. -/
theorem newline_not_mem_quoted (s : String) : '\n' ∉ (quoted s).toList := by
  rw [toList_quoted]
  simp [newline_not_mem_escape]

end MessageCatalog.Json
