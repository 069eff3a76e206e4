/-
Numbers of JSON texts. A numeral behind an optional sign is read up to what ends it: without a fraction
and an exponent it is whole if 64 bits hold it, and otherwise it is a double. What is written for a
number is read as the number, whichever of the two it is.
-/
import MessageCatalog.Proofs.Script.NumberText

namespace MessageCatalog

open MessageCatalog.Text

/-! ## Signs -/

namespace Double

theorem ofRatio_negative (num den : Nat) : ofRatio true num den = (ofRatio false num den).neg := by
  unfold ofRatio
  by_cases hzero : num = 0
  · rw [if_pos hzero, if_pos hzero]
    rfl
  · rw [if_neg hzero, if_neg hzero]
    dsimp only
    generalize (if _ = Nat.pow 2 53 then _ else _ : Nat × Int) = rounded
    by_cases h : IsCanonical rounded.1 rounded.2
    · rw [dif_pos h, dif_pos h]
      rfl
    · rw [dif_neg h, dif_neg h]
      rfl

theorem ofDecimal_negative (digits : Nat) (exponent : Int) :
    ofDecimal true digits exponent = (ofDecimal false digits exponent).neg := by
  unfold ofDecimal
  split
  · rfl
  · split
    · rfl
    · split
      · rfl
      · exact ofRatio_negative _ _

/-- The parts of a number behind a minus sign make up the negated number. -/
theorem ofParts_negative (whole fraction : List Char) (exponent : Int) :
    ofParts true whole fraction exponent = (ofParts false whole fraction exponent).neg :=
  ofDecimal_negative _ _

end Double

namespace Json

open MessageCatalog.Script

/-! ## Digits -/

section

variable {ds rest : List Char}

/-- Nothing in front of which a number ends goes on with it. -/
def EndsValue (rest : List Char) : Prop := ∀ c ∈ rest.head?, c = ',' ∨ c = ']' ∨ c = '\x7d'

theorem takeDigits_append (hds : ∀ c ∈ ds, isAsciiDigit c = true)
    (hrest : ∀ c ∈ rest.head?, isAsciiDigit c = false) : takeDigits (ds ++ rest) = (ds, rest) := by
  obtain ⟨htake, hdrop⟩ := takeWhile_run hds hrest
  rw [takeDigits, htake, hdrop]

theorem readWhole?_append (hds : IsDigits ds) (hleading : ds = ['0'] ∨ '0' ∉ ds.head?)
    (hrest : ∀ c ∈ rest.head?, isAsciiDigit c = false) :
    readWhole? (ds ++ rest) = some (ds, rest) := by
  obtain ⟨hne, hall⟩ := hds
  rcases hleading with rfl | hleading
  · rfl
  · cases ds with
    | nil => exact absurd rfl hne
    | cons d ds =>
      have hread := takeDigits_append hall hrest
      unfold readWhole?
      split
      · rename_i heq
        exact absurd (congrArg some (List.cons.inj heq).1) hleading
      · rw [hread]
        rfl

end

/-! ## Numerals -/

/-- What a numeral is read as, behind a minus sign or without one. -/
def numeralValue (negative : Bool) (n : Numeral) : JsonNumber :=
  if n.fraction = none ∧ n.exponent = none then
    if negative ∧ digitsValue 10 n.whole ≠ 0 ∧ digitsValue 10 n.whole ≤ Nat.pow 2 63 then
      .whole (-digitsValue 10 n.whole)
    else if ¬ negative ∧ digitsValue 10 n.whole < Nat.pow 2 64 then .whole (digitsValue 10 n.whole)
    else .double (.ofParts negative n.whole [] 0)
  else .double (.ofParts negative n.whole (n.fraction.getD []) n.power)

section

variable {n : Numeral} {rest : List Char}

theorem EndsValue.not_digit (h : EndsValue rest) : ∀ c ∈ rest.head?, isAsciiDigit c = false := by
  intro c hc
  rcases h c hc with rfl | rfl | rfl <;> decide

/-- Without a fraction the digits are in front of an exponent or of the end. -/
theorem exponentText_not_digit (hrest : EndsValue rest) :
    ∀ c ∈ (n.exponentText ++ rest).head?, isAsciiDigit c = false ∧ c ≠ '.' := by
  intro c hc
  obtain ⟨whole, fraction, exponent⟩ := n
  cases exponent with
  | some p => cases hc; decide
  | none => rcases hrest c hc with rfl | rfl | rfl <;> decide

theorem fractionText_not_digit (hrest : EndsValue rest) :
    ∀ c ∈ (n.fractionText ++ (n.exponentText ++ rest)).head?, isAsciiDigit c = false := by
  intro c hc
  obtain ⟨whole, fraction, exponent⟩ := n
  cases fraction with
  | some ds => cases hc; decide
  | none => exact (exponentText_not_digit hrest c hc).1

/-- The fraction that is read from a text, and the rest. -/
def readFraction? (cs : List Char) : Option (Option (List Char) × List Char) :=
  match cs with
  | '.' :: rest =>
    let (digits, rest) := takeDigits rest
    if digits = [] then none else some (some digits, rest)
  | _ => some (none, cs)

/-- The exponent that is read from a text, and the rest. -/
def readExponent? (cs : List Char) : Option (Option Int × List Char) :=
  match cs with
  | c :: rest =>
    if c = 'e' ∨ c = 'E' then
      let (minus, rest) := Double.splitSign rest
      let (digits, rest) := takeDigits rest
      if digits = [] then none
      else
        let n : Int := digitsValue 10 digits
        some (some (if minus then -n else n), rest)
    else some (none, cs)
  | [] => some (none, cs)

theorem readFraction?_numeral (h : n.Proper) (hrest : EndsValue rest) :
    readFraction? (n.fractionText ++ (n.exponentText ++ rest)) =
      some (n.fraction, n.exponentText ++ rest) := by
  have hbehind := @exponentText_not_digit n rest hrest
  generalize n.exponentText ++ rest = behind at hbehind
  obtain ⟨whole, fraction, exponent⟩ := n
  cases fraction with
  | some ds =>
    obtain ⟨hne, hall⟩ := h.fraction ds rfl
    show (let (digits, rest) := takeDigits (ds ++ behind)
      if digits = [] then none else some (some digits, rest)) = _
    rw [takeDigits_append hall fun c hc => (hbehind c hc).1]
    exact if_neg hne
  | none =>
    show readFraction? behind = _
    unfold readFraction?
    split
    · exact absurd rfl (hbehind _ rfl).2
    · rfl

theorem readExponent?_numeral (h : n.Proper) (hrest : EndsValue rest) :
    readExponent? (n.exponentText ++ rest) = some (n.exponent.map fun _ => n.power, rest) := by
  obtain ⟨whole, fraction, exponent⟩ := n
  cases exponent with
  | some p =>
    obtain ⟨minus, ds⟩ := p
    obtain ⟨hne, hall⟩ := h.exponent _ rfl
    have hsign : Double.splitSign ((if minus then '-' else '+') :: (ds ++ rest)) =
        (minus, ds ++ rest) := by
      cases minus <;> rfl
    show readExponent? ('e' :: (if minus then '-' else '+') :: (ds ++ rest)) = _
    rw [readExponent?, if_pos (.inl rfl), hsign]
    dsimp only
    rw [takeDigits_append hall hrest.not_digit]
    exact if_neg hne
  | none =>
    show readExponent? rest = _
    unfold readExponent?
    split
    · rename_i c tail
      have hmark : ¬ (c = 'e' ∨ c = 'E') := by
        rcases hrest c rfl with rfl | rfl | rfl <;> decide
      exact if_neg hmark
    · rfl

section

variable {α : Type} (cs : List Char)

theorem readFraction?_bind (k : Option (List Char) × List Char → Option α) :
    (match cs with
      | '.' :: rest =>
        let (digits, rest) := takeDigits rest
        if digits = [] then none >>= k else some (some digits, rest) >>= k
      | _ => some (none, cs) >>= k) = readFraction? cs >>= k := by
  unfold readFraction?
  split
  · dsimp only
    split <;> rfl
  · rfl

theorem readExponent?_bind (k : Option Int × List Char → Option α) :
    (match cs with
      | c :: rest =>
        if c = 'e' ∨ c = 'E' then
          let (minus, rest) := Double.splitSign rest
          let (digits, rest) := takeDigits rest
          if digits = [] then none >>= k
          else
            let n : Int := digitsValue 10 digits
            some (some (if minus then -n else n), rest) >>= k
        else some (none, cs) >>= k
      | [] => some (none, cs) >>= k) = readExponent? cs >>= k := by
  unfold readExponent?
  split
  · split
    · dsimp only
      split <;> rfl
    · rfl
  · rfl

end

/-- The parts of a number are read one after another. -/
theorem readNumber?_eq (negative : Bool) {cs : List Char} (hsign : negative = false → '-' ∉ cs.head?) :
    readNumber? ((if negative then ['-'] else []) ++ cs) = (do
      let (whole, cs) ← readWhole? cs
      let (fraction, cs) ← readFraction? cs
      let (exponent, cs) ← readExponent? cs
      match fraction, exponent with
      | none, none =>
        let n := digitsValue 10 whole
        if negative ∧ n ≠ 0 ∧ n ≤ Nat.pow 2 63 then return (.whole (-n), cs)
        else if ¬ negative ∧ n < Nat.pow 2 64 then return (.whole n, cs)
        else return (.double (.ofParts negative whole [] 0), cs)
      | _, _ => return (.double (.ofParts negative whole (fraction.getD []) (exponent.getD 0)), cs)) := by
  cases negative with
  | true =>
    refine bind_congr fun (whole, cs) => ?_
    refine (readFraction?_bind cs _).trans (bind_congr fun (fraction, cs) => ?_)
    exact readExponent?_bind cs _
  | false =>
    rw [if_neg Bool.false_ne_true, List.nil_append]
    unfold readNumber?
    split
    rename_i hsplit
    split at hsplit
    · exact absurd rfl (hsign rfl)
    · cases hsplit
      refine bind_congr fun (whole, cs) => ?_
      refine (readFraction?_bind cs _).trans (bind_congr fun (fraction, cs) => ?_)
      exact readExponent?_bind cs _

/-- A numeral is read up to what is behind it. -/
theorem readNumber?_numeral (h : n.Proper) (negative : Bool) (hrest : EndsValue rest) :
    readNumber? ((if negative then ['-'] else []) ++ (n.text ++ rest)) =
      some (numeralValue negative n, rest) := by
  have hsign : '-' ∉ (n.text ++ rest).head? := by
    obtain ⟨hne, hall⟩ := h.whole
    cases hwhole : n.whole with
    | nil => exact absurd hwhole hne
    | cons d ds =>
      rw [Numeral.text, hwhole]
      rintro ⟨⟩
      exact absurd (hall '-' (by rw [hwhole]; exact List.mem_cons_self)) (by decide)
  rw [readNumber?_eq negative fun _ => hsign, Numeral.text, List.append_assoc, List.append_assoc]
  simp only [readWhole?_append h.whole h.leading (fractionText_not_digit hrest),
    readFraction?_numeral h hrest, readExponent?_numeral h hrest, Option.bind_eq_bind, Option.bind_some]
  unfold numeralValue
  obtain ⟨whole, fraction, exponent⟩ := n
  cases fraction with
  | none =>
    cases exponent with
    | none => simp only [Option.map_none, and_self, if_true]; split <;> [rfl; split <;> rfl]
    | some p => rfl
  | some ds =>
    cases exponent with
    | none => rfl
    | some p => rfl

/-! ## Written numbers -/

/-- A whole number that 64 bits hold stays whole. -/
def InWords (n : Int) : Prop := -(2 : Int) ^ 63 ≤ n ∧ n < 2 ^ 64

instance (n : Int) : Decidable (InWords n) := inferInstanceAs (Decidable (_ ∧ _))

/-- What a whole number is read as once it is written. -/
def wholeAsRead (k : Int) : JsonNumber := if InWords k then .whole k else .double (.ofInt k)

theorem ofParts_toString (negative : Bool) (k : Nat) :
    Double.ofParts negative (toString k).toList [] 0 = .ofRatio negative k 1 := by
  unfold Double.ofParts Double.ofDecimal
  rw [List.append_nil, digitsValue_toString, List.length_nil, Int.natCast_zero, Int.sub_zero]
  by_cases hzero : k = 0
  · rw [hzero]
    rfl
  · have hlow : ¬ ((0 : Int) + k.log2 + 1 < -400) := by omega
    have hpow : k * Nat.pow 10 (0 : Int).toNat = k := Nat.mul_one k
    rw [if_neg hzero, if_neg (by decide), if_neg hlow, hpow]
    rfl

theorem numeralValue_whole (k : Int) :
    numeralValue (k < 0) ⟨(toString k.natAbs).toList, none, none⟩ = wholeAsRead k := by
  unfold numeralValue wholeAsRead
  rw [if_pos ⟨rfl, rfl⟩, digitsValue_toString, ofParts_toString, Double.ofInt]
  simp only [decide_eq_true_eq]
  rcases lt_or_ge k 0 with hneg | hpos
  · have hword : InWords k ↔ k.natAbs ≤ 2 ^ 63 := by
      unfold InWords
      omega
    by_cases hin : k.natAbs ≤ 2 ^ 63
    · rw [if_pos ⟨hneg, by omega, hin⟩, if_pos (hword.2 hin)]
      exact congrArg JsonNumber.whole (by omega)
    · rw [if_neg fun h => hin h.2.2, if_neg fun h => h.1 hneg, if_neg (mt hword.1 hin)]
  · have hword : InWords k ↔ k.natAbs < 2 ^ 64 := by
      unfold InWords
      omega
    have hnot : ¬ k < 0 := by omega
    rw [if_neg fun h => hnot h.1]
    by_cases hin : k.natAbs < 2 ^ 64
    · rw [if_pos ⟨hnot, hin⟩, if_pos (hword.2 hin)]
      exact congrArg JsonNumber.whole (by omega)
    · rw [if_neg fun h => hin h.2, if_neg (mt hword.1 hin)]

theorem toList_toString_int (k : Int) :
    (toString k).toList = (if decide (k < 0) then ['-'] else []) ++ (toString k.natAbs).toList := by
  cases k with
  | ofNat k => rfl
  | negSucc k =>
    rw [decide_eq_true (Int.negSucc_lt_zero k), if_pos rfl]
    exact String.toList_append

theorem proper_toString (k : Nat) : (Numeral.mk (toString k).toList none none).Proper := by
  refine ⟨isDigits_toString k, ?_, nofun, nofun⟩
  rcases Nat.eq_zero_or_pos k with rfl | hk
  · exact .inl rfl
  · refine .inr ?_
    rw [toList_toString]
    exact zero_not_mem_head?_toDigits k hk

theorem point_mem_positionalText (digits : String) (point : Int) :
    '.' ∈ (Double.positionalText true digits point).toList := by
  simp only [Double.positionalText, if_true]
  repeat' split
  all_goals simp

theorem mark_mem_exponentText (digits : String) (point : Int) :
    'e' ∈ (Double.exponentText true digits point).toList := by
  simp [Double.exponentText]

/-- The text of a double has a point or an exponent. -/
theorem marked_magnitude (x : Magnitude) :
    ∃ c ∈ (numberLayout.magnitude x).toList, isAsciiDigit c = false := by
  unfold Double.Layout.magnitude
  dsimp only [numberLayout]
  repeat' split
  · exact ⟨'.', by decide, by decide⟩
  · exact ⟨'.', point_mem_positionalText _ _, by decide⟩
  · exact ⟨'e', mark_mem_exponentText _ _, by decide⟩

theorem numberText_double (negative : Bool) (x : Magnitude) :
    ∃ n : Numeral, n.Proper ∧
      (numberText (.double (.finite negative x))).toList = (if negative then ['-'] else []) ++ n.text ∧
      numeralValue negative n = .double (.finite negative x) := by
  have hsigned : numberLayout.positional = none ∨ numberLayout.plusSign = true := .inr rfl
  obtain ⟨n, hproper, htext, hvalue⟩ := layout_numeral hsigned x
  refine ⟨n, hproper, ?_, ?_⟩
  · rw [numberText, String.toList_append, ← htext]
    cases negative <;> rfl
  · have hmarked : ¬ (n.fraction = none ∧ n.exponent = none) := by
      rintro ⟨hfraction, hexponent⟩
      obtain ⟨c, hc, hmark⟩ := marked_magnitude x
      rw [← htext, Numeral.text, Numeral.fractionText, Numeral.exponentText, hfraction, hexponent] at hc
      exact Bool.eq_false_iff.1 hmark (hproper.whole.2 c (by simpa using hc))
    rw [numeralValue, if_neg hmarked]
    cases negative with
    | false => exact congrArg JsonNumber.double hvalue
    | true =>
      rw [Double.ofParts_negative]
      exact congrArg (fun d : Double => JsonNumber.double d.neg) hvalue

/-- What a number is read as once it is written. -/
def asReadNumber : JsonNumber → Json
  | .whole k => .number (wholeAsRead k)
  | .double (.finite negative x) => .number (.double (.finite negative x))
  | .double _ => .null

/-- A number is written as a numeral behind a sign, or as `null`. -/
theorem numberText_cases (n : JsonNumber) :
    (∃ (negative : Bool) (m : Numeral), m.Proper ∧
      (numberText n).toList = (if negative then ['-'] else []) ++ m.text ∧
      asReadNumber n = .number (numeralValue negative m)) ∨
    (numberText n = "null" ∧ asReadNumber n = .null) := by
  cases n with
  | whole k =>
    refine .inl ⟨k < 0, _, proper_toString k.natAbs, ?_, congrArg Json.number (numeralValue_whole k).symm⟩
    rw [numberText, toList_toString_int]
    simp [Numeral.text, Numeral.fractionText, Numeral.exponentText]
  | double d =>
    cases d with
    | finite negative x =>
      obtain ⟨m, hproper, htext, hvalue⟩ := numberText_double negative x
      exact .inl ⟨negative, m, hproper, htext, congrArg Json.number hvalue.symm⟩
    | _ => exact .inr ⟨rfl, rfl⟩

/-- The characters that the text of a number consists of. -/
theorem mem_numberText {n : JsonNumber} {c : Char} (hc : c ∈ (numberText n).toList) :
    c ∈ numeralChars ++ "null".toList := by
  rcases numberText_cases n with ⟨negative, m, hproper, htext, -⟩ | ⟨htext, -⟩
  · refine List.mem_append_left _ ?_
    rw [htext] at hc
    rcases List.mem_append.1 hc with hc | hc
    · cases negative
      · cases hc
      · rw [List.mem_singleton.1 hc]
        decide
    · exact m.mem_numeralChars hproper hc
  · rw [htext] at hc
    exact List.mem_append_right _ hc

/-! ## Numbers among values -/

/-- A character that numbers start with. -/
def startsNumber (c : Char) : Prop := c = '-' ∨ isAsciiDigit c = true

theorem startsNumber_signed (h : n.Proper) (negative : Bool) :
    ∃ c tail, (if negative then ['-'] else []) ++ n.text = c :: tail ∧ startsNumber c := by
  obtain ⟨hne, hall⟩ := h.whole
  cases negative with
  | true => exact ⟨_, _, rfl, .inl rfl⟩
  | false =>
    cases hwhole : n.whole with
    | nil => exact absurd hwhole hne
    | cons d ds =>
      have hdigit : isAsciiDigit d = true := hall d (by rw [hwhole]; exact List.mem_cons_self)
      exact ⟨d, _, by rw [Numeral.text, hwhole]; rfl, .inr hdigit⟩

theorem startsNumber_ne {c d : Char} (hc : startsNumber c) (hminus : d ≠ '-')
    (hdigit : isAsciiDigit d = false) : c ≠ d := by
  rcases hc with rfl | hc
  · exact hminus.symm
  · exact digit_ne hc hdigit

theorem skipBlanks_cons {c : Char} {tail : List Char} (h : isJsonBlank c = false) :
    skipBlanks (c :: tail) = c :: tail :=
  List.dropWhile_cons_of_neg (Bool.eq_false_iff.1 h)

theorem startsNumber_not_blank {c : Char} (hc : startsNumber c) : isJsonBlank c = false := by
  have hspace : c ≠ ' ' := startsNumber_ne hc (by decide) (by decide)
  have hnewline : c ≠ '\n' := startsNumber_ne hc (by decide) (by decide)
  have hreturn : c ≠ '\r' := startsNumber_ne hc (by decide) (by decide)
  have htab : c ≠ '\t' := startsNumber_ne hc (by decide) (by decide)
  simp [isJsonBlank, hspace, hnewline, hreturn, htab]

theorem readValue?_startsNumber {c : Char} {tail : List Char} (fuel : Nat) (hc : startsNumber c) :
    readValue? (fuel + 1) (c :: tail) =
      (readNumber? (c :: tail)).map fun (n, rest) => (.number n, rest) := by
  rw [readValue?, skipBlanks_cons (startsNumber_not_blank hc)]
  split
  all_goals first
    | rfl
    | rename_i heq
      exact absurd (List.cons.inj heq).1 (startsNumber_ne hc (by decide) (by decide))

/-- The text of a number is read up to what ends it. -/
theorem readValue?_numberText (n : JsonNumber) (fuel : Nat) (hrest : EndsValue rest) :
    readValue? (fuel + 1) ((numberText n).toList ++ rest) = some (asReadNumber n, rest) := by
  rcases numberText_cases n with ⟨negative, m, hproper, htext, hvalue⟩ | ⟨htext, hvalue⟩
  · obtain ⟨c, tail, hstart, hc⟩ := startsNumber_signed hproper negative
    have hread := readNumber?_numeral hproper negative hrest
    rw [← List.append_assoc, hstart, List.cons_append] at hread
    rw [htext, hstart, List.cons_append, readValue?_startsNumber fuel hc, hread, hvalue]
    rfl
  · rw [htext, hvalue]
    rfl

end

end Json

end MessageCatalog
