/-
Laws of the character classes: what is no blank is read off a finite list, trimmed text has no blank
at its ends, and the decimal digits of a number denote it.
-/
import Mathlib.Data.List.DropRight
import MessageCatalog.Text.CharClass

namespace MessageCatalog.Text

/-! ## Blanks -/

/-- All blanks. -/
def blanks : List Char :=
  blankRanges.flatMap fun (low, high) => (List.range' low (high + 1 - low)).map Char.ofNat

theorem mem_blanks {c : Char} (h : isBlank c = true) : c ∈ blanks := by
  unfold isBlank inRanges at h
  obtain ⟨⟨low, high⟩, hr, hc⟩ := List.any_eq_true.1 h
  obtain ⟨hlow, hhigh⟩ := Bool.and_eq_true_iff.1 hc
  refine List.mem_flatMap.2 ⟨_, hr, List.mem_map.2 ⟨c.toNat, ?_, Char.ofNat_toNat c⟩⟩
  rw [List.mem_range'_1]
  simp only [decide_eq_true_eq] at hlow hhigh
  omega

/-- A class that no blank is in. -/
theorem not_blank_of {p : Char → Bool} (hp : blanks.any p = false) {c : Char} (h : p c = true) :
    isBlank c = false := by
  cases hb : isBlank c with
  | false => rfl
  | true =>
    rw [List.any_eq_true.2 ⟨c, mem_blanks hb, h⟩] at hp
    cases hp

/-! ## Runs -/

section

variable {α : Type} {p : α → Bool} {run rest : List α} {a : α}

/-- A run of a class ends in front of what is not in the class. -/
theorem takeWhile_run (hrun : ∀ a ∈ run, p a = true) (hrest : ∀ a ∈ rest.head?, p a = false) :
    (run ++ rest).takeWhile p = run ∧ (run ++ rest).dropWhile p = rest := by
  rw [List.takeWhile_append_of_pos hrun, List.dropWhile_append_of_pos hrun]
  cases rest with
  | nil => exact ⟨List.append_nil run, rfl⟩
  | cons a rest =>
    have ha : ¬ p a = true := Bool.eq_false_iff.1 (hrest a rfl)
    rw [List.takeWhile_cons_of_neg ha, List.dropWhile_cons_of_neg ha, List.append_nil]
    exact ⟨rfl, rfl⟩

theorem takeWhile_run_cons (hrun : ∀ a ∈ run, p a = true) (ha : p a = false) (rest : List α) :
    (run ++ a :: rest).takeWhile p = run ∧ (run ++ a :: rest).dropWhile p = a :: rest := by
  refine takeWhile_run hrun ?_
  rintro _ ⟨⟩
  exact ha

/-- No run of a class goes past what is not in the class. -/
theorem takeWhile_stop (ha : p a = false) (front rest : List α) :
    (front ++ a :: rest).takeWhile p = front.takeWhile p := by
  induction front with
  | nil => exact List.takeWhile_cons_of_neg (Bool.eq_false_iff.1 ha)
  | cons b front ih => rw [List.cons_append, List.takeWhile_cons, List.takeWhile_cons, ih]

end

/-! ## Trimming -/

theorem trimStart_eq_self {cs : List Char} (h : ∀ c ∈ cs.head?, isBlank c = false) :
    trimStart cs = cs := by
  cases cs with
  | nil => rfl
  | cons c cs => rw [trimStart, List.dropWhile_cons, h c rfl]; rfl

theorem trimEnd_eq_self {cs : List Char} (h : ∀ c ∈ cs.getLast?, isBlank c = false) :
    trimEnd cs = cs := by
  refine List.rdropWhile_eq_self_iff.2 fun hne => ?_
  rw [h _ (List.getLast?_eq_some_getLast hne)]
  exact Bool.false_ne_true

theorem trim_eq_self {cs : List Char} (h : ∀ c ∈ cs, isBlank c = false) : trim cs = cs := by
  rw [trim, trimStart_eq_self fun c hc => h c (List.mem_of_mem_head? hc),
    trimEnd_eq_self fun c hc => h c (List.mem_of_getLast? hc)]

/-- What begins behind dropped elements is not dropped. -/
theorem head?_dropWhile {α : Type} {p : α → Bool} {l : List α} {a : α}
    (h : a ∈ (l.dropWhile p).head?) : p a = false := by
  have hd := List.head?_dropWhile_not p l
  rw [Option.mem_def.1 h] at hd
  exact hd

theorem mem_head?_of_isPrefix {α : Type} {a b : List α} (h : a <+: b) {x : α} (hx : x ∈ a.head?) :
    x ∈ b.head? := by
  obtain ⟨t, rfl⟩ := h
  cases a with
  | nil => cases hx
  | cons y a => exact hx

theorem trimEnd_isPrefix (cs : List Char) : trimEnd cs <+: cs := List.rdropWhile_prefix isBlank cs

theorem trimEnd_trimEnd (cs : List Char) : trimEnd (trimEnd cs) = trimEnd cs :=
  List.rdropWhile_idempotent isBlank cs

theorem trim_trim (cs : List Char) : trim (trim cs) = trim cs := by
  have hstart : trimStart (trimEnd (trimStart cs)) = trimEnd (trimStart cs) :=
    trimStart_eq_self fun c hc => head?_dropWhile (mem_head?_of_isPrefix (trimEnd_isPrefix _) hc)
  rw [trim, trim, hstart, trimEnd_trimEnd]

theorem mem_of_mem_trim {cs : List Char} {c : Char} (h : c ∈ trim cs) : c ∈ cs :=
  (List.dropWhile_suffix isBlank).subset ((trimEnd_isPrefix _).subset h)

theorem mem_dropWhile_of_neg {α : Type} {p : α → Bool} {a : α} {l : List α} (h : a ∈ l) (ha : ¬ p a = true) :
    a ∈ l.dropWhile p := by
  rw [← List.takeWhile_append_dropWhile (p := p) (l := l)] at h
  rcases List.mem_append.1 h with h | h
  · exact absurd (List.all_eq_true.1 List.all_takeWhile a h) ha
  · exact h

theorem mem_trim_of_not_blank {cs : List Char} {c : Char} (h : c ∈ cs) (hc : isBlank c = false) :
    c ∈ trim cs := by
  have hneg : ¬ isBlank c = true := by simp [hc]
  exact List.mem_reverse.2 (mem_dropWhile_of_neg (List.mem_reverse.2 (mem_dropWhile_of_neg h hneg)) hneg)

/-! ## Digits -/

theorem toList_toString (n : Nat) : (toString n).toList = Nat.toDigits 10 n := Nat.toList_repr

theorem isAsciiDigit_of_mem_toString {n : Nat} {c : Char} (h : c ∈ (toString n).toList) :
    isAsciiDigit c = true := by
  rw [toList_toString] at h
  exact Nat.isDigit_of_mem_toDigits (by decide) (by decide) h

theorem hexValue_digit {c : Char} (h : isAsciiDigit c = true) : hexValue c = c.toNat - 48 := if_pos h

theorem digitsValue_toString (n : Nat) : digitsValue 10 (toString n).toList = n := by
  have hdigits : ∀ c ∈ (toString n).toList, hexValue c = c.toNat - 48 :=
    fun c h => hexValue_digit (isAsciiDigit_of_mem_toString h)
  rw [toList_toString] at hdigits ⊢
  refine Eq.trans ?_ Nat.ofDigitChars_ten_toDigits
  rw [Nat.ofDigitChars_eq_foldl]
  refine List.foldl_ext _ _ _ fun a c hc => ?_
  rw [hdigits c hc, Nat.mul_comm]
  rfl

end MessageCatalog.Text
