/-
Decimal numbers as they are written: whole digits, a fraction and an exponent. Each is one token,
whose value is that of its parts.
-/
import MessageCatalog.Proofs.Script.Lexeme
import MessageCatalog.Proofs.Text.CharClass

namespace MessageCatalog.Script

open MessageCatalog.Text

/-! ## Numerals -/

/-- The parts of a decimal number; with the digits of the exponent comes whether it is negative. -/
structure Numeral where
  whole : List Char
  fraction : Option (List Char)
  exponent : Option (Bool × List Char)

/-- Decimal digits, at least one. -/
def IsDigits (cs : List Char) : Prop := cs ≠ [] ∧ ∀ c ∈ cs, isAsciiDigit c = true

/-- No zero stands in front of other digits, and a part that is there has digits. -/
structure Numeral.Proper (n : Numeral) : Prop where
  whole : IsDigits n.whole
  leading : n.whole = ['0'] ∨ '0' ∉ n.whole.head?
  fraction : ∀ ds ∈ n.fraction, IsDigits ds
  exponent : ∀ p ∈ n.exponent, IsDigits p.2

namespace Numeral

def fractionText (n : Numeral) : List Char := n.fraction.elim [] ('.' :: ·)

def exponentText (n : Numeral) : List Char :=
  n.exponent.elim [] fun p => 'e' :: (if p.1 then '-' else '+') :: p.2

def text (n : Numeral) : List Char := n.whole ++ (n.fractionText ++ n.exponentText)

def power (n : Numeral) : Int :=
  n.exponent.elim 0 fun p => if p.1 then -(digitsValue 10 p.2 : Int) else digitsValue 10 p.2

def value (n : Numeral) : Double := .ofParts false n.whole (n.fraction.getD []) n.power

end Numeral

/-! ## Digits -/

/-- Nothing behind digits goes on with them. -/
def EndsDigits (rest : List Char) : Prop := ∀ c ∈ rest.head?, isAsciiDigit c = false ∧ c ≠ '_'

theorem digit_ne {c d : Char} (hc : isAsciiDigit c = true) (hd : isAsciiDigit d = false) : c ≠ d := by
  rintro rfl
  rw [hc] at hd
  cases hd

def decimalDigits : List Char := ['0', '1', '2', '3', '4', '5', '6', '7', '8', '9']

theorem mem_decimalDigits {c : Char} (h : isAsciiDigit c = true) : c ∈ decimalDigits := by
  simp only [isAsciiDigit, Bool.and_eq_true, decide_eq_true_eq] at h
  have hlow : 48 ≤ c.toNat := toNat_le h.1
  have hhigh : c.toNat ≤ 57 := toNat_le h.2
  have hall : ∀ n ≤ 57, 48 ≤ n → Char.ofNat n ∈ decimalDigits := by decide
  simpa [Char.ofNat_toNat] using hall c.toNat hhigh hlow

/-- The characters that a numeral consists of. -/
def numeralChars : List Char := ['.', 'e', '-', '+'] ++ decimalDigits

theorem Numeral.mem_numeralChars {n : Numeral} (h : n.Proper) {c : Char} (hc : c ∈ n.text) :
    c ∈ numeralChars := by
  have hdigits : ∀ {ds : List Char}, IsDigits ds → c ∈ ds → c ∈ numeralChars := fun hds hmem =>
    List.mem_append_right _ (mem_decimalDigits (hds.2 c hmem))
  obtain ⟨whole, fraction, exponent⟩ := n
  rcases List.mem_append.1 hc with hc | hc
  · exact hdigits h.whole hc
  · rcases List.mem_append.1 hc with hc | hc
    · cases fraction with
      | none => cases hc
      | some ds =>
        rcases List.mem_cons.1 hc with rfl | hc
        · decide
        · exact hdigits (h.fraction ds rfl) hc
    · cases exponent with
      | none => cases hc
      | some p =>
        obtain ⟨negative, ds⟩ := p
        rcases List.mem_cons.1 hc with rfl | hc
        · decide
        · rcases List.mem_cons.1 hc with rfl | hc
          · show (if negative then '-' else '+') ∈ numeralChars
            cases negative <;> decide
          · exact hdigits (h.exponent _ rfl) hc

theorem readDigits_digits {ds rest : List Char} {fuel : Nat} (hfuel : ds.length < fuel)
    (hds : ∀ c ∈ ds, isAsciiDigit c = true) (hrest : EndsDigits rest) :
    readDigits isAsciiDigit fuel (ds ++ rest) = (ds, rest, none) := by
  induction ds generalizing fuel with
  | nil =>
    cases fuel with
    | zero => cases hfuel
    | succ fuel =>
      cases rest with
      | nil => rfl
      | cons c tail =>
        obtain ⟨hdigit, hseparator⟩ := hrest c rfl
        -- digits and the separator have arms of their own, and `rest` starts with neither
        rw [List.nil_append, readDigits]
        · rw [hdigit]
          rfl
        · exact hseparator
  | cons c ds ih =>
    cases fuel with
    | zero => cases hfuel
    | succ fuel =>
      obtain ⟨hc, hds⟩ := List.forall_mem_cons.1 hds
      rw [List.cons_append, readDigits]
      · simp [hc, ih (Nat.lt_of_succ_lt_succ hfuel) hds]
      · exact digit_ne hc (by decide)

/-- All digits in front of something else are read. -/
theorem readDigits_append {ds rest : List Char} (hds : ∀ c ∈ ds, isAsciiDigit c = true)
    (hrest : EndsDigits rest) :
    readDigits isAsciiDigit ((ds ++ rest).length + 1) (ds ++ rest) = (ds, rest, none) := by
  refine readDigits_digits ?_ hds hrest
  rw [List.length_append]
  omega

section

variable {offset : OffsetOf} {rest : List Char}

/-- Nothing behind a number goes on with it. -/
def EndsNumber (rest : List Char) : Prop := EndsWord rest ∧ '.' ∉ rest.head?

theorem isIdentifierPart_of_digit {c : Char} (h : isAsciiDigit c = true) : isIdentifierPart c = true := by
  have hle : c.toNat < 128 := isHexDigit_toNat (by simp [isHexDigit, h])
  simp [isIdentifierPart, isDecimalDigit, hle, h]

theorem EndsWord.endsDigits (h : EndsWord rest) : EndsDigits rest := by
  intro c hc
  obtain ⟨hpart, -⟩ := h c hc
  constructor
  · exact Bool.eq_false_iff.2 fun hdigit => Bool.eq_false_iff.1 hpart (isIdentifierPart_of_digit hdigit)
  · rintro rfl
    exact absurd hpart (by decide)

theorem finishNumber_ends (kind : TokenKind) (h : EndsWord rest) :
    finishNumber offset kind rest [] = ⟨kind, rest, []⟩ := by
  cases rest with
  | nil => rfl
  | cons c tail =>
    obtain ⟨hpart, hescape⟩ := h c rfl
    have hstart : isIdentifierStart c = false :=
      Bool.eq_false_iff.2 fun h => Bool.eq_false_iff.1 hpart (isIdentifierPart_of_start h)
    have hdigit := (h.endsDigits c rfl).1
    simp [finishNumber, hstart, hdigit, hescape]

/-! ## Parts of a number -/

theorem readExponent_none (h : EndsWord rest) : readExponent offset rest = none := by
  cases rest with
  | nil => rfl
  | cons c tail =>
    obtain ⟨hpart, -⟩ := h c rfl
    have hmark : ¬ (c = 'e' ∨ c = 'E') := by
      rintro (rfl | rfl) <;> exact absurd hpart (by decide)
    rw [readExponent, if_neg hmark]

theorem readExponent_digits {negative : Bool} {ds : List Char} (hds : IsDigits ds) (hrest : EndsDigits rest) :
    readExponent offset ('e' :: (if negative then '-' else '+') :: (ds ++ rest)) =
      some (if negative then -(digitsValue 10 ds : Int) else digitsValue 10 ds, rest, []) := by
  obtain ⟨hne, hall⟩ := hds
  have hsplit : Double.splitSign ((if negative then '-' else '+') :: (ds ++ rest)) =
      (negative, ds ++ rest) := by
    cases negative <;> rfl
  cases ds with
  | nil => exact absurd rfl hne
  | cons d ds =>
    have hdigit := (List.forall_mem_cons.1 hall).1
    have hread := readDigits_append hall hrest
    rw [readExponent, if_pos (.inl rfl), hsplit]
    simp only [List.cons_append, hdigit, if_true] at hread ⊢
    rw [hread]
    rfl

/-- The exponent is read, or there is none and nothing is taken. -/
theorem readExponent_text (offset : OffsetOf) {n : Numeral} (h : n.Proper) (hrest : EndsWord rest) :
    (readExponent offset (n.exponentText ++ rest) = none ∧ n.exponentText = [] ∧ n.power = 0) ∨
      readExponent offset (n.exponentText ++ rest) = some (n.power, rest, []) := by
  obtain ⟨whole, fraction, exponent⟩ := n
  cases exponent with
  | none => exact .inl ⟨readExponent_none hrest, rfl, rfl⟩
  | some p => exact .inr (readExponent_digits (h.exponent p rfl) hrest.endsDigits)

/-- What is behind the whole digits and the fraction. -/
theorem exponentText_ends {n : Numeral} (hrest : EndsNumber rest) :
    EndsDigits (n.exponentText ++ rest) ∧ '.' ∉ (n.exponentText ++ rest).head? := by
  obtain ⟨whole, fraction, exponent⟩ := n
  cases exponent with
  | none => exact ⟨hrest.1.endsDigits, hrest.2⟩
  | some p =>
    constructor
    · rintro c ⟨⟩
      decide
    · rintro ⟨⟩

/-- Without a fraction the exponent comes next. -/
theorem readDecimalTail_whole {whole cs : List Char} (hpoint : '.' ∉ cs.head?) :
    readDecimalTail offset whole cs [] =
      match readExponent offset cs with
      | some (exponent, rest, more) =>
        finishNumber offset (.number (.ofParts false whole [] exponent)) rest more
      | none => finishNumber offset (.number (.ofParts false whole [] 0)) cs [] := by
  cases cs with
  | nil => rfl
  | cons c cs =>
    have hc : c ≠ '.' := fun h => hpoint (h ▸ rfl)
    unfold readDecimalTail
    split
    rename_i hparts
    split at hparts
    · rename_i heq
      exact absurd (List.cons.inj heq).1 hc
    · cases hparts
      rfl

theorem readDecimalTail_fraction {whole ds cs : List Char} (hds : IsDigits ds) (hcs : EndsDigits cs) :
    readDecimalTail offset whole ('.' :: (ds ++ cs)) [] =
      match readExponent offset cs with
      | some (exponent, rest, more) =>
        finishNumber offset (.number (.ofParts false whole ds exponent)) rest more
      | none => finishNumber offset (.number (.ofParts false whole ds 0)) cs [] := by
  obtain ⟨hne, hall⟩ := hds
  cases ds with
  | nil => exact absurd rfl hne
  | cons d ds =>
    have hdigit := (List.forall_mem_cons.1 hall).1
    have hread := readDigits_append hall hcs
    rw [List.cons_append] at hread ⊢
    rcases hexponent : readExponent offset cs with _ | ⟨exponent, rest, more⟩ <;>
      simp only [readDecimalTail, hdigit, if_true, hread, misplaced, List.append_nil,
        List.nil_append, hexponent]

theorem readDecimalTail_parts {n : Numeral} (h : n.Proper) (hrest : EndsNumber rest) :
    readDecimalTail offset n.whole (n.fractionText ++ (n.exponentText ++ rest)) [] =
      ⟨.number n.value, rest, []⟩ := by
  have hexponent := readExponent_text offset h hrest.1
  obtain ⟨hdigits, hpoint⟩ := exponentText_ends (n := n) hrest
  -- with a fraction or without one, what is read next is the exponent
  have hfraction : readDecimalTail offset n.whole (n.fractionText ++ (n.exponentText ++ rest)) [] =
      match readExponent offset (n.exponentText ++ rest) with
      | some (exponent, rest, more) =>
        finishNumber offset (.number (.ofParts false n.whole (n.fraction.getD []) exponent)) rest more
      | none =>
        finishNumber offset (.number (.ofParts false n.whole (n.fraction.getD []) 0))
          (n.exponentText ++ rest) [] := by
    cases hpart : n.fraction with
    | none =>
      rw [Numeral.fractionText, hpart]
      exact readDecimalTail_whole hpoint
    | some ds =>
      rw [Numeral.fractionText, hpart]
      exact readDecimalTail_fraction (h.fraction ds hpart) hdigits
  rw [hfraction, Numeral.value]
  rcases hexponent with ⟨hnone, htext, hpower⟩ | hsome
  · rw [hnone, htext, hpower]
    exact finishNumber_ends _ hrest.1
  · rw [hsome]
    exact finishNumber_ends _ hrest.1

/-- Nothing behind whole digits makes another notation of them. -/
def EndsWhole (tail : List Char) : Prop :=
  ∀ c ∈ tail.head?, isAsciiDigit c = false ∧ c ∉ ['x', 'X', 'o', 'O', 'b', 'B', 'n', '_']

theorem EndsWhole.takeWhile {tail : List Char} (h : EndsWhole tail) :
    tail.takeWhile isAsciiDigit = [] ∧ tail.dropWhile isAsciiDigit = tail :=
  @takeWhile_run Char isAsciiDigit [] tail nofun fun c hc => (h c hc).1

/-- No mark of another notation stands behind the digits. -/
theorem EndsWhole.not_mark {c : Char} {tail rest : List Char} (h : EndsWhole tail)
    (hc : c ∈ ['x', 'X', 'o', 'O', 'b', 'B', 'n', '_']) : tail ≠ c :: rest := by
  rintro rfl
  exact (h c rfl).2 hc

theorem readNumber_zero {tail : List Char} (htail : EndsWhole tail) :
    readNumber offset ('0' :: tail) = readDecimalTail offset ['0'] tail [] := by
  obtain ⟨htake, hdrop⟩ := htail.takeWhile
  unfold readNumber
  split
  case h_8 heq =>
    cases heq
    rw [htake, hdrop]
    rfl
  case h_9 hzero => exact absurd rfl (hzero _)
  all_goals
    rename_i heq
    exact absurd (List.cons.inj heq).2 (htail.not_mark (by decide))

theorem readNumber_digits {d : Char} {ds tail : List Char} (hall : ∀ c ∈ d :: ds, isAsciiDigit c = true)
    (hleading : d ≠ '0') (htail : EndsWhole tail) :
    readNumber offset (d :: ds ++ tail) = readDecimalTail offset (d :: ds) tail [] := by
  have hends : EndsDigits tail := fun c hc => ⟨(htail c hc).1, fun h => (htail c hc).2 (by rw [h]; decide)⟩
  have hread := readDigits_append hall hends
  unfold readNumber
  split
  -- the arms in front of the one for decimal digits are those of a zero
  case h_9 =>
    simp only [hread]
    split
    · exact absurd rfl (htail.not_mark (by decide))
    · rfl
  all_goals
    rename_i heq
    exact absurd (List.cons.inj heq).1 hleading

theorem readNumber_whole {whole tail : List Char} (hwhole : IsDigits whole)
    (hleading : whole = ['0'] ∨ '0' ∉ whole.head?) (htail : EndsWhole tail) :
    readNumber offset (whole ++ tail) = readDecimalTail offset whole tail [] := by
  obtain ⟨hne, hall⟩ := hwhole
  rcases hleading with rfl | hleading
  · exact readNumber_zero htail
  · cases whole with
    | nil => exact absurd rfl hne
    | cons d ds => exact readNumber_digits hall (fun h => hleading (h ▸ rfl)) htail

theorem EndsWord.endsWhole (h : EndsWord rest) : EndsWhole rest := by
  intro c hc
  refine ⟨(h.endsDigits c hc).1, fun hmark => ?_⟩
  have hall : ['x', 'X', 'o', 'O', 'b', 'B', 'n', '_'].all isIdentifierPart = true := by decide
  exact Bool.eq_false_iff.1 (h c hc).1 (List.all_eq_true.1 hall c hmark)

theorem fractionText_endsWhole {n : Numeral} (hrest : EndsWord rest) :
    EndsWhole (n.fractionText ++ (n.exponentText ++ rest)) := by
  obtain ⟨whole, fraction, exponent⟩ := n
  cases fraction with
  | some ds =>
    rintro c ⟨⟩
    decide
  | none =>
    cases exponent with
    | some p =>
      rintro c ⟨⟩
      decide
    | none => exact hrest.endsWhole

theorem cutToken_digit {d : Char} {tail : List Char} {atStart : Bool} (hdigit : isAsciiDigit d = true) :
    cutToken offset atStart (d :: tail) = readNumber offset (d :: tail) := by
  unfold cutToken
  split
  case h_7 heq =>
    obtain ⟨rfl, rfl⟩ := List.cons.inj heq
    rw [if_pos hdigit]
  case h_1 heq => cases heq
  all_goals
    rename_i heq
    exact absurd (List.cons.inj heq).1 (digit_ne hdigit (by decide))

/-- A numeral is one token of its value. -/
theorem isLexeme_numeral {n : Numeral} (h : n.Proper) (hrest : EndsNumber rest) :
    IsLexeme n.text (.number n.value) rest := by
  obtain ⟨hne, hall⟩ := h.whole
  cases hwhole : n.whole with
  | nil => exact absurd hwhole hne
  | cons d ds =>
    have hdigit := hall d (by rw [hwhole]; exact List.mem_cons_self)
    refine ⟨⟨d, _, by rw [Numeral.text, hwhole]; rfl, ?_⟩, fun offset atStart => ?_⟩
    · exact List.all_eq_true.1 (by decide : decimalDigits.all startsLexeme = true) d
        (mem_decimalDigits hdigit)
    · rw [Numeral.text, List.append_assoc, List.append_assoc]
      have hnumber : readNumber offset (n.whole ++ (n.fractionText ++ (n.exponentText ++ rest))) =
          ⟨.number n.value, rest, []⟩ := by
        rw [readNumber_whole h.whole h.leading (fractionText_endsWhole hrest.1),
          readDecimalTail_parts h hrest]
      rw [← hnumber, hwhole, List.cons_append]
      exact cutToken_digit hdigit

end

end MessageCatalog.Script
