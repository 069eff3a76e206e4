/-
The texts of numbers are read as the numbers: every layout of the shortest digits is a numeral of
the magnitude it was made for.
-/
import MessageCatalog.Proofs.Number.Shortest
import MessageCatalog.Proofs.Script.Layout
import MessageCatalog.Proofs.Text.CharClass

namespace MessageCatalog.Script

open MessageCatalog.Text Double

/-! ## Digits -/

theorem digitsValue_append (as bs : List Char) :
    digitsValue 10 (as ++ bs) = bs.foldl (fun n c => n * 10 + hexValue c) (digitsValue 10 as) :=
  List.foldl_append

theorem digitsValue_append_zeros (ds : List Char) (k : Nat) :
    digitsValue 10 (ds ++ List.replicate k '0') = digitsValue 10 ds * 10 ^ k := by
  induction k with
  | zero => simp
  | succ k ih =>
    rw [List.replicate_succ', ← List.append_assoc, digitsValue_append, ih, Nat.pow_succ, ← Nat.mul_assoc]
    rfl

theorem digitsValue_zeros_append (k : Nat) (ds : List Char) :
    digitsValue 10 (List.replicate k '0' ++ ds) = digitsValue 10 ds := by
  have hzeros : digitsValue 10 (List.replicate k '0') = 0 * 10 ^ k := digitsValue_append_zeros [] k
  rw [digitsValue_append, hzeros, Nat.zero_mul]
  rfl

/-- A positive number is written without a zero in front. -/
theorem zero_not_mem_head?_toDigits (n : Nat) (hn : 0 < n) : '0' ∉ (Nat.toDigits 10 n).head? := by
  induction n using Nat.strongRecOn with
  | ind n ih =>
    rw [Nat.toDigits_eq_if (by decide)]
    split
    · rename_i hsmall
      have hall : ∀ m < 10, 0 < m → '0' ∉ [Nat.digitChar m].head? := by decide
      exact hall n hsmall hn
    · rename_i hlarge
      have hquotient := ih (n / 10) (by omega) (by omega)
      rwa [List.head?_append_of_ne_nil _ Nat.toDigits_ne_nil]

theorem isDigits_toString (n : Nat) : IsDigits (toString n).toList := by
  refine ⟨?_, fun c hc => isAsciiDigit_of_mem_toString hc⟩
  rw [toList_toString]
  exact Nat.toDigits_ne_nil

theorem isDigit_of_mem_zeros {k : Nat} {c : Char} (hc : c ∈ List.replicate k '0') :
    isAsciiDigit c = true := by
  rw [List.eq_of_mem_replicate hc]
  rfl

theorem IsDigits.append {as bs : List Char} (has : IsDigits as) (hbs : ∀ c ∈ bs, isAsciiDigit c = true) :
    IsDigits (as ++ bs) :=
  ⟨List.append_ne_nil_of_left_ne_nil has.1 _, fun c hc => (List.mem_append.1 hc).elim (has.2 c) (hbs c)⟩

/-! ## Layouts -/

/-- A text that is a numeral of a number. -/
def IsNumeral (text : List Char) (d : Double) : Prop := ∃ n : Numeral, n.Proper ∧ n.text = text ∧ n.value = d

section

variable {x : Magnitude} {n : Nat} {e : Int} {ds : List Char}

/-- The digits of a decimal that is nearest to a magnitude. -/
structure DigitsOf (x : Magnitude) (ds : List Char) (e : Int) : Prop where
  positive : 0 < x.mantissa
  digits : IsDigits ds
  leading : '0' ∉ ds.head?
  nearest : RoundsTo x.mantissa x.exponent (digitsValue 10 ds * 10 ^ e)

theorem digitsOf_toString (hx : 0 < x.mantissa) (h : RoundsTo x.mantissa x.exponent (n * 10 ^ e)) :
    DigitsOf x (toString n).toList e := by
  have hpositive : 0 < n := by
    by_contra hzero
    obtain rfl : n = 0 := by omega
    have hleast := h.half_unit_le hx
    have hp := two_zpow_pos x.exponent
    rw [Nat.cast_zero, zero_mul] at hleast
    linarith
  refine ⟨hx, isDigits_toString n, ?_, by rwa [digitsValue_toString]⟩
  rw [toList_toString]
  exact zero_not_mem_head?_toDigits n hpositive

/-- Parts with the same digits make up the same number. -/
theorem DigitsOf.ofParts_eq (h : DigitsOf x ds e) {whole fraction : List Char} {power : Int} {k : Nat}
    (hdigits : digitsValue 10 (whole ++ fraction) = digitsValue 10 ds * 10 ^ k)
    (hpower : power - fraction.length + k = e) : ofParts false whole fraction power = .finite false x := by
  refine ofDecimal_eq h.positive ?_ false
  convert h.nearest using 1
  rw [← hpower, zpow_add₀ (by norm_num), hdigits, zpow_natCast]
  push_cast
  ring

/-- All digits stand before the point, with zeros behind them. -/
theorem DigitsOf.whole (h : DigitsOf x ds e) (he : 0 ≤ e) (wholeFraction : Bool) :
    IsNumeral (ds ++ List.replicate e.toNat '0' ++ (if wholeFraction then ".0".toList else []))
      (.finite false x) := by
  have hwhole : IsDigits (ds ++ List.replicate e.toNat '0') := h.digits.append fun _ => isDigit_of_mem_zeros
  have hleading : '0' ∉ (ds ++ List.replicate e.toNat '0').head? := by
    rw [List.head?_append_of_ne_nil _ h.digits.1]
    exact h.leading
  cases wholeFraction with
  | false =>
    refine ⟨⟨_, none, none⟩, ⟨hwhole, .inr hleading, nofun, nofun⟩, rfl, ?_⟩
    refine h.ofParts_eq (k := e.toNat) ?_ ?_
    · rw [← digitsValue_append_zeros]
      exact congrArg (digitsValue 10) (List.append_nil _)
    · simp [Numeral.power]
      omega
  | true =>
    refine ⟨⟨_, some ['0'], none⟩, ⟨hwhole, .inr hleading, ?_, nofun⟩, rfl, ?_⟩
    · rintro _ ⟨⟩
      exact isDigits_toString 0
    -- the zero of the fraction is one more digit behind the zeros of the exponent
    · refine h.ofParts_eq (k := e.toNat + 1) ?_ ?_
      · rw [← digitsValue_append_zeros, List.replicate_succ', List.append_assoc]
        rfl
      · simp [Numeral.power]
        omega

/-- The point stands between the digits. -/
theorem DigitsOf.between (h : DigitsOf x ds e) {k : Nat} (hk : 0 < k) (hlt : k < ds.length)
    (he : (k : Int) = ds.length + e) : IsNumeral (ds.take k ++ '.' :: ds.drop k) (.finite false x) := by
  have htake : IsDigits (ds.take k) :=
    ⟨List.ne_nil_of_length_pos (by rw [List.length_take]; omega),
      fun c hc => h.digits.2 c (List.mem_of_mem_take hc)⟩
  have hdrop : IsDigits (ds.drop k) :=
    ⟨List.ne_nil_of_length_pos (by rw [List.length_drop]; omega),
      fun c hc => h.digits.2 c (List.mem_of_mem_drop hc)⟩
  have hleading : '0' ∉ (ds.take k).head? := by
    rw [List.head?_take, if_neg (Nat.ne_of_gt hk)]
    exact h.leading
  refine ⟨⟨_, some (ds.drop k), none⟩, ⟨htake, .inr hleading, ?_, nofun⟩, ?_, ?_⟩
  · rintro _ ⟨⟩
    exact hdrop
  · simp [Numeral.text, Numeral.fractionText, Numeral.exponentText]
  · refine h.ofParts_eq (k := 0) ?_ ?_
    · rw [Option.getD_some, List.take_append_drop, Nat.pow_zero, Nat.mul_one]
    · simp [Numeral.power]
      omega

/-- All digits stand behind the point, with zeros before them. -/
theorem DigitsOf.behind (h : DigitsOf x ds e) {k : Nat} (he : -(k : Int) = ds.length + e) :
    IsNumeral ("0.".toList ++ List.replicate k '0' ++ ds) (.finite false x) := by
  have hfraction : IsDigits (List.replicate k '0' ++ ds) := by
    refine ⟨List.append_ne_nil_of_right_ne_nil _ h.digits.1, fun c hc => ?_⟩
    exact (List.mem_append.1 hc).elim isDigit_of_mem_zeros (h.digits.2 c)
  refine ⟨⟨['0'], some (List.replicate k '0' ++ ds), none⟩,
    ⟨isDigits_toString 0, .inl rfl, ?_, nofun⟩, ?_, ?_⟩
  · rintro _ ⟨⟩
    exact hfraction
  · simp [Numeral.text, Numeral.fractionText, Numeral.exponentText]
  · refine h.ofParts_eq (k := 0) ?_ ?_
    -- the zero in front of the point joins those behind it
    · rw [Nat.pow_zero, Nat.mul_one, ← digitsValue_zeros_append (k + 1) ds, List.replicate_succ]
      rfl
    · simp [Numeral.power]
      omega

/-- One digit stands before the point, and the exponent carries its sign. -/
theorem DigitsOf.scientific (h : DigitsOf x ds e) :
    IsNumeral (ds.take 1 ++ (if ds.drop 1 = [] then [] else '.' :: ds.drop 1) ++
      'e' :: (if ds.length + e - 1 < 0 then '-' else '+') ::
        (toString (ds.length + e - 1).natAbs).toList) (.finite false x) := by
  have hne := h.digits.1
  have htake : IsDigits (ds.take 1) :=
    ⟨by cases ds <;> simp at hne ⊢, fun c hc => h.digits.2 c (List.mem_of_mem_take hc)⟩
  have hleading : '0' ∉ (ds.take 1).head? := by
    rw [List.head?_take, if_neg (by decide)]
    exact h.leading
  generalize hpower : (ds.length : Int) + e - 1 = power
  refine ⟨⟨ds.take 1, if ds.drop 1 = [] then none else some (ds.drop 1),
    some (decide (power < 0), (toString power.natAbs).toList)⟩, ⟨htake, .inr hleading, ?_, ?_⟩, ?_, ?_⟩
  · intro cs hcs
    split at hcs
    · cases hcs
    · rename_i hdrop
      cases hcs
      exact ⟨hdrop, fun c hc => h.digits.2 c (List.mem_of_mem_drop hc)⟩
  · rintro _ ⟨⟩
    exact isDigits_toString _
  · split <;> simp [Numeral.text, Numeral.fractionText, Numeral.exponentText]
  · have hfraction : (if ds.drop 1 = [] then none else some (ds.drop 1)).getD [] = ds.drop 1 := by
      split <;> simp_all
    refine h.ofParts_eq (k := 0) ?_ ?_
    · rw [hfraction, List.take_append_drop, Nat.pow_zero, Nat.mul_one]
    · have hlength : 0 < ds.length := List.length_pos_of_ne_nil hne
      rw [hfraction, Numeral.power, Option.elim_some, digitsValue_toString, List.length_drop]
      simp only [decide_eq_true_eq]
      split <;> omega

theorem positionalText_numeral {digits : String} (h : DigitsOf x digits.toList e) (wholeFraction : Bool) :
    IsNumeral (positionalText wholeFraction digits (digits.length + e)).toList (.finite false x) := by
  have hlength : digits.length = digits.toList.length := String.length_toList.symm
  unfold positionalText
  dsimp only
  split
  · have hwhole := h.whole (by omega) wholeFraction
    rw [show ((digits.length : Int) + e - digits.length).toNat = e.toNat by omega]
    cases wholeFraction <;> simpa [zeros] using hwhole
  · split
    · have hbetween := h.between (k := (digits.length + e).toNat) (by omega) (by omega) (by omega)
      simpa using hbetween
    · have hbehind := h.behind (k := (-(digits.length + e)).toNat) (by omega)
      simpa [zeros] using hbehind

theorem exponentText_numeral {digits : String} (h : DigitsOf x digits.toList e) :
    IsNumeral (exponentText true digits (digits.length + e)).toList (.finite false x) := by
  have hscientific := h.scientific
  rw [String.length_toList] at hscientific
  have hfraction : String.ofList (digits.toList.drop 1) = "" ↔ digits.toList.drop 1 = [] := by
    rw [← String.toList_inj, String.toList_ofList]
    rfl
  unfold exponentText
  dsimp only
  convert hscientific using 1
  simp only [hfraction, if_true]
  split <;> split <;> simp

/-- The text of a magnitude is a numeral of it, in every layout that signs its exponents. -/
theorem layout_numeral {layout : Layout} (hlayout : layout.positional = none ∨ layout.plusSign = true)
    (x : Magnitude) : IsNumeral (layout.magnitude x).toList (.finite false x) := by
  unfold Layout.magnitude
  split
  · rename_i hzero
    rw [eq_signedZero hzero]
    split
    · refine ⟨⟨['0'], some ['0'], none⟩, ⟨isDigits_toString 0, .inl rfl, ?_, nofun⟩, rfl, rfl⟩
      rintro _ ⟨⟩
      exact isDigits_toString 0
    · exact ⟨⟨['0'], none, none⟩, ⟨isDigits_toString 0, .inl rfl, nofun, nofun⟩, rfl, rfl⟩
  · rename_i hne
    have hx : 0 < x.mantissa := Nat.pos_of_ne_zero hne
    have hdigits := digitsOf_toString hx (shortest_roundsTo layout.tie hx)
    dsimp only
    split
    · exact positionalText_numeral hdigits _
    · split
      · exact positionalText_numeral hdigits _
      · rename_i hsome _
        -- a layout with a range for the positional form signs the exponents outside of it
        rw [hlayout.resolve_left (by rw [hsome]; nofun)]
        exact exponentText_numeral hdigits

/-! ## Whole numbers -/

theorem whole_numeral {x : Magnitude} {n : Nat} (h : x.whole? = some n) :
    IsNumeral (toString n).toList (.finite false x) := by
  have hvalue := whole?_value h
  rcases Nat.eq_zero_or_pos x.mantissa with hzero | hx
  · rw [hzero, Nat.cast_zero, zero_mul] at hvalue
    obtain rfl : n = 0 := by exact_mod_cast hvalue
    rw [eq_signedZero hzero]
    exact ⟨⟨['0'], none, none⟩, ⟨isDigits_toString 0, .inl rfl, nofun, nofun⟩, rfl, rfl⟩
  · have hdigits : DigitsOf x (toString n).toList 0 := by
      refine digitsOf_toString hx ?_
      rw [hvalue, zpow_zero, mul_one]
      exact roundsTo_self _ _
    have hwhole := hdigits.whole (le_refl 0) false
    simpa using hwhole

end

/-! ## Numbers in a script -/

theorem IsNumeral.isLexeme {text rest : List Char} {d : Double} (h : IsNumeral text d)
    (hrest : EndsNumber rest) :
    IsLexeme text (.number d) rest := by
  obtain ⟨n, hproper, rfl, rfl⟩ := h
  exact isLexeme_numeral hproper hrest

theorem IsNumeral.starts_digit {text : List Char} {d : Double} (h : IsNumeral text d) :
    ∃ c tail, text = c :: tail ∧ isAsciiDigit c = true := by
  obtain ⟨n, hproper, rfl, -⟩ := h
  obtain ⟨hne, hall⟩ := hproper.whole
  cases hwhole : n.whole with
  | nil => exact absurd hwhole hne
  | cons c ds =>
    refine ⟨c, _, by rw [Numeral.text, hwhole]; rfl, hall c ?_⟩
    rw [hwhole]
    exact List.mem_cons_self

section

variable {offset : OffsetOf} {text rest : List Char} {ps : List Piece}

/-- The sign of a negative number is a token of its own. -/
theorem IsNumeral.cuts_signed {x : Magnitude} (negative : Bool) (h : IsNumeral text (.finite false x))
    (hrest : Stops rest) (behind : Cuts offset rest ps) :
    Cuts offset ((if negative then ['-'] else []) ++ text ++ rest)
      (numberPieces (.finite negative x) ++ ps) := by
  have hnumber := (h.isLexeme hrest.endsNumber).cuts behind
  cases negative with
  | false => exact hnumber
  | true =>
    obtain ⟨c, tail, rfl, hc⟩ := h.starts_digit
    exact (isLexeme_minus (digit_ne hc (by decide)) (digit_ne hc (by decide))).cuts hnumber

/-- An unsigned zero has no minus sign. -/
theorem sign_of_unsignedZero {negative : Bool} {x : Magnitude}
    (h : (Double.finite negative x).unsignedZero = .finite negative x) :
    negative = true → x.mantissa ≠ 0 := by
  rintro rfl
  have hsign := (Double.finite.inj h).1
  simpa using hsign

theorem numberText_numeral (x : Magnitude) :
    IsNumeral (numberText (.finite false x)).toList (.finite false x) := by
  have hlayout : IsNumeral (numberLayout.magnitude x).toList (.finite false x) := layout_numeral (.inl rfl) x
  simp only [numberText, Bool.false_eq_true, false_and, if_false]
  split
  · rename_i n hwhole
    split
    · exact whole_numeral hwhole
    · exact hlayout
  · exact hlayout

/-- Every number of a script is cut into its tokens, if a zero has no sign. -/
theorem cutsNumber_numberText {d : Double} (hd : d.unsignedZero = d) :
    CutsNumber (fun d => (numberText d).toList) d := by
  intro offset rest ps hrest behind
  cases d with
  | nan => exact (isLexeme_word (by decide) hrest.endsNumber.1).cuts behind
  | infinite negative =>
    have hlexeme : IsLexeme "Infinity".toList (.name "Infinity") rest :=
      isLexeme_word (by decide) hrest.endsNumber.1
    have hword := hlexeme.cuts behind
    cases negative with
    | false => exact hword
    | true => exact (isLexeme_minus (by decide) (by decide)).cuts hword
  | finite negative x =>
    have hsigned := (numberText_numeral x).cuts_signed negative hrest behind
    cases negative with
    | false => exact hsigned
    | true =>
      -- the text drops the sign of a negative zero, which `hd` excludes
      have hne := sign_of_unsignedZero hd rfl
      simpa [numberText, hne] using hsigned

theorem jsonNumber_numeral {x : Magnitude} {n : JsonNumber} (h : numberValue (.finite false x) = .number n) :
    IsNumeral (Json.numberText n).toList (.finite false x) := by
  have hlayout : IsNumeral (Json.numberLayout.magnitude x).toList (.finite false x) :=
    layout_numeral (.inr rfl) x
  simp only [numberValue, Bool.false_eq_true, if_false] at h
  split at h
  · rename_i hwhole
    split at h
    · cases h
      exact whole_numeral hwhole
    · cases h
      simpa [Json.numberText] using hlayout
  · cases h
    simpa [Json.numberText] using hlayout

theorem toString_neg {n : Nat} (hn : 0 < n) : toString (-(n : Int)) = "-" ++ toString (n : Int) := by
  obtain ⟨k, rfl⟩ := Nat.exists_eq_add_of_lt hn
  rfl

/-- A negative number is written as the positive one behind a minus sign. -/
theorem jsonNumber_neg {x : Magnitude} (hx : x.mantissa ≠ 0) :
    ∃ n m, numberValue (.finite false x) = .number n ∧ numberValue (.finite true x) = .number m ∧
      Json.numberText m = "-" ++ Json.numberText n := by
  unfold numberValue
  dsimp only
  split
  · rename_i n hwhole
    split
    · refine ⟨_, _, rfl, rfl, toString_neg (Nat.pos_of_ne_zero ?_)⟩
      rintro rfl
      have hvalue := whole?_value hwhole
      have hp := two_zpow_pos x.exponent
      have hm : (0 : ℚ) < x.mantissa := by exact_mod_cast Nat.pos_of_ne_zero hx
      exact (mul_pos hm hp).ne (by exact_mod_cast hvalue)
    · exact ⟨_, _, rfl, rfl, by simp [Json.numberText]⟩
  · exact ⟨_, _, rfl, rfl, by simp [Json.numberText]⟩

/-- Every finite number of a data text is cut into its tokens, if a zero has no sign. -/
theorem cutsNumber_json {d : Double} {n : JsonNumber} (hd : d.unsignedZero = d)
    (h : numberValue d = .number n) :
    CutsNumber (fun d => ((numberValue d).pretty 0).toList) d := by
  intro offset rest ps hrest behind
  cases d with
  | nan => cases h
  | infinite negative => cases h
  | finite negative x =>
    cases negative with
    | false =>
      have hsigned := (jsonNumber_numeral h).cuts_signed false hrest behind
      simpa [h, Json.pretty] using hsigned
    | true =>
      obtain ⟨n, m, hpositive, hnegative, htext⟩ := jsonNumber_neg (sign_of_unsignedZero hd rfl)
      have hsigned := (jsonNumber_numeral hpositive).cuts_signed true hrest behind
      simpa [hnegative, Json.pretty, htext] using hsigned

end

end MessageCatalog.Script
