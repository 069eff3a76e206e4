/-
The core schema, form by form. The text of a plain scalar is null or a boolean by its word. It is a
number exactly if it has one of the forms of numbers, where digits of base eight and sixteen count
only below `2 ^ 63`. Any other text stands for itself.
-/
import MessageCatalog.Proofs.Number.Rounding
import MessageCatalog.Proofs.Script.Numeral
import MessageCatalog.Yaml.Schema

namespace MessageCatalog.Yaml

open MessageCatalog.Script MessageCatalog.Text

/-! ## Forms of numbers -/

/-- One or more characters of a class. -/
def IsRun (isDigit : Char → Bool) (digits : List Char) : Prop :=
  digits ≠ [] ∧ ∀ c ∈ digits, isDigit c = true

/-- An optional sign, and whether it is a minus. -/
inductive IsSign : List Char → Bool → Prop where
  | absent : IsSign [] false
  | plus : IsSign ['+'] false
  | minus : IsSign ['-'] true

/-- Digits with or without a point, and the digits on either side of it. -/
inductive IsMantissa : List Char → List Char → List Char → Prop where
  | whole {whole : List Char} (digits : IsRun isAsciiDigit whole) : IsMantissa whole whole []
  | point {whole fraction : List Char} (digits : IsRun isAsciiDigit whole)
    (behind : ∀ c ∈ fraction, isAsciiDigit c = true) :
    IsMantissa (whole ++ '.' :: fraction) whole fraction
  | fraction {fraction : List Char} (digits : IsRun isAsciiDigit fraction) :
    IsMantissa ('.' :: fraction) [] fraction

/-- An optional power of ten. -/
inductive IsExponent : List Char → Int → Prop where
  | absent : IsExponent [] 0
  | present {mark : Char} {sign digits : List Char} {negative : Bool}
    (marks : mark = 'e' ∨ mark = 'E') (signs : IsSign sign negative)
    (run : IsRun isAsciiDigit digits) :
    IsExponent (mark :: (sign ++ digits))
      (if negative then -(digitsValue 10 digits : Int) else digitsValue 10 digits)

/-- A decimal number of any length, and the double next to it. -/
inductive IsDecimal : List Char → Double → Prop where
  | intro {sign mantissa whole fraction power : List Char} {negative : Bool} {n : Int}
    (signs : IsSign sign negative) (digits : IsMantissa mantissa whole fraction)
    (exponent : IsExponent power n) :
    IsDecimal (sign ++ (mantissa ++ power)) (.ofParts negative whole fraction n)

/-- Digits in any of the three bases, and the number that they denote. -/
inductive IsNumeral : List Char → Double → Prop where
  | decimal {text : List Char} {d : Double} (h : IsDecimal text d) : IsNumeral text d
  | octal {digits : List Char} (run : IsRun isOctalDigit digits) :
    IsNumeral ('0' :: 'o' :: digits) (.ofNat (digitsValue 8 digits))
  | hexadecimal {digits : List Char} (run : IsRun isHexDigit digits) :
    IsNumeral ('0' :: 'x' :: digits) (.ofNat (digitsValue 16 digits))

/-- The forms that the schema has for numbers. -/
inductive IsNumber : List Char → Double → Prop where
  | numeral {text : List Char} {d : Double} (h : IsNumeral text d) : IsNumber text d
  | infinite {sign : List Char} {negative : Bool} {word : String} (signs : IsSign sign negative)
    (words : word ∈ [".inf", ".Inf", ".INF"]) :
    IsNumber (sign ++ word.toList) (.infinite negative)
  | notANumber {word : String} (words : word ∈ [".nan", ".NaN", ".NAN"]) :
    IsNumber word.toList .nan

def nullWords : List String := ["", "~", "null", "Null", "NULL"]

def boolWords (b : Bool) : List String :=
  if b then ["true", "True", "TRUE"] else ["false", "False", "FALSE"]

/-- Digits behind a prefix that make up a number of more than 63 bits. -/
def IsOversized (text : List Char) : Prop :=
  ∃ digits, text = '0' :: 'o' :: digits ∧ wholeLimit ≤ digitsValue 8 digits ∨
    text = '0' :: 'x' :: digits ∧ wholeLimit ≤ digitsValue 16 digits

theorem isOversized_octal {digits : List Char} :
    IsOversized ('0' :: 'o' :: digits) ↔ wholeLimit ≤ digitsValue 8 digits := by
  simp [IsOversized]

theorem isOversized_hexadecimal {digits : List Char} :
    IsOversized ('0' :: 'x' :: digits) ↔ wholeLimit ≤ digitsValue 16 digits := by
  simp [IsOversized]

/-! ## Signs and exponents -/

theorem splitSign_sign {cs body : List Char} {negative : Bool}
    (h : Double.splitSign cs = (negative, body)) : ∃ sign, IsSign sign negative ∧ cs = sign ++ body := by
  unfold Double.splitSign at h
  split at h
  · cases h
    exact ⟨['+'], .plus, rfl⟩
  · cases h
    exact ⟨['-'], .minus, rfl⟩
  · cases h
    exact ⟨[], .absent, rfl⟩

theorem splitSign_append {sign body : List Char} {negative : Bool} (h : IsSign sign negative)
    (hbody : ∀ c ∈ body.head?, c ≠ '+' ∧ c ≠ '-') :
    Double.splitSign (sign ++ body) = (negative, body) := by
  cases h with
  | plus => rfl
  | minus => rfl
  | absent =>
    rw [List.nil_append]
    unfold Double.splitSign
    split
    · exact absurd rfl (hbody '+' rfl).1
    · exact absurd rfl (hbody '-' rfl).2
    · rfl

theorem IsRun.head_not_sign {digits : List Char} (h : IsRun isAsciiDigit digits) (rest : List Char) :
    ∀ c ∈ (digits ++ rest).head?, c ≠ '+' ∧ c ≠ '-' := by
  obtain ⟨hne, hall⟩ := h
  intro c hc
  rw [List.head?_append_of_ne_nil _ hne] at hc
  have hdigit := hall c (List.mem_of_mem_head? hc)
  exact ⟨digit_ne hdigit rfl, digit_ne hdigit rfl⟩

theorem exponentPart?_eq_some {cs : List Char} {n : Int} :
    Double.exponentPart? cs = some n ↔ IsExponent cs n := by
  constructor
  · intro h
    unfold Double.exponentPart? at h
    split at h
    · cases h
      exact .absent
    · rename_i mark rest
      split at h
      · rename_i hmark
        cases hsplit : Double.splitSign rest with
        | mk negative digits =>
        simp only [hsplit] at h
        split at h
        · rename_i hdigits
          cases h
          obtain ⟨sign, hsign, rfl⟩ := splitSign_sign hsplit
          exact .present hmark hsign ⟨hdigits.1, List.all_eq_true.1 hdigits.2⟩
        · cases h
      · cases h
  · rintro (_ | ⟨marks, signs, run⟩)
    · rfl
    · rename_i mark sign digits negative
      have hsplit : Double.splitSign (sign ++ digits) = (negative, digits) := by
        have hhead := run.head_not_sign []
        rw [List.append_nil] at hhead
        exact splitSign_append signs hhead
      have hall : digits.all isAsciiDigit = true := List.all_eq_true.2 run.2
      simp only [Double.exponentPart?, marks, if_true, hsplit, run.1, hall, ne_eq, not_false_eq_true,
        and_self]

/-- What an exponent starts with goes on with neither digits nor a point. -/
theorem IsExponent.head {cs : List Char} {n : Int} (h : IsExponent cs n) :
    ∀ c ∈ cs.head?, isAsciiDigit c = false ∧ c ≠ '.' := by
  cases h with
  | absent => nofun
  | present marks =>
    rintro _ ⟨⟩
    rcases marks with rfl | rfl <;> decide

/-! ## Decimal numbers -/

/-- No name of a number starts with a digit or a point. -/
theorem lower_ne_of_leading {c : Char} (hc : isAsciiDigit c = true ∨ c = '.') (cs : List Char) :
    String.ofList ((c :: cs).map Char.toLower) ∉ ["inf", "infinity", "nan"] := by
  have hall : ('.' :: decimalDigits).all (fun c => c.toLower ≠ 'i' ∧ c.toLower ≠ 'n') = true := by decide
  have hleading : c ∈ '.' :: decimalDigits :=
    hc.elim (fun h => List.mem_cons_of_mem _ (mem_decimalDigits h)) fun h => h ▸ List.mem_cons_self
  obtain ⟨hi, hn⟩ := of_decide_eq_true (List.all_eq_true.1 hall c hleading)
  intro hmem
  have hhead : ∀ word : String, String.ofList ((c :: cs).map Char.toLower) = word →
      some c.toLower = word.toList.head? := by
    rintro _ rfl
    rw [String.toList_ofList]
    rfl
  simp only [List.mem_cons, List.not_mem_nil, or_false] at hmem
  rcases hmem with h | h | h
  · exact hi (Option.some.inj (hhead _ h))
  · exact hi (Option.some.inj (hhead _ h))
  · exact hn (Option.some.inj (hhead _ h))

/-- The parts that the digits in front of an exponent are split into. -/
def splitDigits (body : List Char) : List Char × List Char × List Char :=
  match body.dropWhile isAsciiDigit with
  | '.' :: tail =>
    (body.takeWhile isAsciiDigit, tail.takeWhile isAsciiDigit, tail.dropWhile isAsciiDigit)
  | rest => (body.takeWhile isAsciiDigit, [], rest)

theorem splitDigits_cases {body whole fraction rest : List Char}
    (h : splitDigits body = (whole, fraction, rest)) : whole = body.takeWhile isAsciiDigit ∧
      ((∃ tail, body.dropWhile isAsciiDigit = '.' :: tail ∧ fraction = tail.takeWhile isAsciiDigit ∧
          rest = tail.dropWhile isAsciiDigit) ∨
        (∀ tail, body.dropWhile isAsciiDigit ≠ '.' :: tail) ∧ fraction = [] ∧
          rest = body.dropWhile isAsciiDigit) := by
  unfold splitDigits at h
  split at h
  · rename_i tail hdrop
    cases h
    exact ⟨rfl, .inl ⟨tail, hdrop, rfl, rfl⟩⟩
  · rename_i hdrop
    cases h
    exact ⟨rfl, .inr ⟨hdrop, rfl, rfl⟩⟩

/-- Behind a sign, in front of a digit or a point, a number is read part by part. -/
theorem read?_of_leading {text body whole fraction rest : List Char} {negative : Bool} {c : Char}
    {cs : List Char} (hsign : Double.splitSign text = (negative, body)) (hbody : body = c :: cs)
    (hc : isAsciiDigit c = true ∨ c = '.') (hsplit : splitDigits body = (whole, fraction, rest)) :
    Double.read? text = if whole = [] ∧ fraction = [] then none
      else (Double.exponentPart? rest).map (.ofParts negative whole fraction) := by
  have hlower := lower_ne_of_leading hc cs
  rw [← hbody] at hlower
  simp only [List.mem_cons, List.not_mem_nil, or_false, not_or] at hlower
  obtain ⟨hinf, hinfinity, hnan⟩ := hlower
  simp only [Double.read?, hsign, hinf, hinfinity, hnan, or_self, if_false]
  obtain ⟨rfl, ⟨tail, hdrop, rfl, rfl⟩ | ⟨hdrop, rfl, rfl⟩⟩ := splitDigits_cases hsplit
  · rw [hdrop]
    rfl
  · split
    · rename_i tail heq
      exact absurd heq (hdrop tail)
    · rfl

theorem splitDigits_eq {body whole fraction rest : List Char}
    (h : splitDigits body = (whole, fraction, rest)) (hsome : ¬ (whole = [] ∧ fraction = [])) :
    ∃ mantissa, IsMantissa mantissa whole fraction ∧ body = mantissa ++ rest := by
  have htake := body.takeWhile_append_dropWhile (p := isAsciiDigit)
  have hall : ∀ cs : List Char, ∀ c ∈ cs.takeWhile isAsciiDigit, isAsciiDigit c = true :=
    fun cs c hc => List.mem_takeWhile_imp hc
  obtain ⟨rfl, ⟨tail, hdrop, rfl, rfl⟩ | ⟨-, rfl, rfl⟩⟩ := splitDigits_cases h
  · have htail := tail.takeWhile_append_dropWhile (p := isAsciiDigit)
    rw [hdrop] at htake
    by_cases hwhole : body.takeWhile isAsciiDigit = []
    · rw [hwhole] at htake hsome ⊢
      have hfraction : IsRun isAsciiDigit (tail.takeWhile isAsciiDigit) :=
        ⟨fun h => hsome ⟨rfl, h⟩, hall tail⟩
      refine ⟨_, .fraction hfraction, ?_⟩
      rw [List.cons_append, htail, ← htake, List.nil_append]
    · refine ⟨_, .point ⟨hwhole, hall body⟩ (hall tail), ?_⟩
      rw [List.append_assoc, List.cons_append, htail, htake]
  · exact ⟨_, .whole ⟨fun h => hsome ⟨h, rfl⟩, hall body⟩, htake.symm⟩

theorem splitDigits_append {mantissa whole fraction power : List Char} {n : Int}
    (h : IsMantissa mantissa whole fraction) (hpower : IsExponent power n) :
    splitDigits (mantissa ++ power) = (whole, fraction, power) ∧ ¬ (whole = [] ∧ fraction = []) := by
  have hhead := hpower.head
  have hnot : ∀ c ∈ power.head?, isAsciiDigit c = false := fun c hc => (hhead c hc).1
  cases h with
  | whole digits =>
    obtain ⟨htake, hdrop⟩ := takeWhile_run digits.2 hnot
    refine ⟨?_, fun h => digits.1 h.1⟩
    unfold splitDigits
    split
    · rename_i tail heq
      rw [hdrop] at heq
      exact absurd rfl (hhead '.' (by rw [heq]; rfl)).2
    · rw [htake, hdrop]
  | point digits behind =>
    obtain ⟨htake, hdrop⟩ := takeWhile_run_cons digits.2 (show isAsciiDigit '.' = false from rfl)
      (fraction ++ power)
    obtain ⟨htake', hdrop'⟩ := takeWhile_run behind hnot
    refine ⟨?_, fun h => digits.1 h.1⟩
    rw [List.append_assoc, List.cons_append, splitDigits, hdrop, htake]
    simp only [htake', hdrop']
  | fraction digits =>
    obtain ⟨htake, hdrop⟩ := takeWhile_run digits.2 hnot
    refine ⟨?_, fun h => digits.1 h.2⟩
    have hpoint : ¬ isAsciiDigit '.' = true := by decide
    rw [List.cons_append, splitDigits, List.dropWhile_cons_of_neg hpoint,
      List.takeWhile_cons_of_neg hpoint]
    simp only [htake, hdrop]

/-- A mantissa starts with a digit or a point. -/
theorem IsMantissa.head {mantissa whole fraction : List Char}
    (h : IsMantissa mantissa whole fraction) :
    ∃ c cs, mantissa = c :: cs ∧ (isAsciiDigit c = true ∨ c = '.') := by
  cases h with
  | fraction digits => exact ⟨'.', _, rfl, .inr rfl⟩
  | whole digits | point digits =>
    obtain ⟨c, cs, rfl⟩ := List.exists_cons_of_ne_nil digits.1
    exact ⟨c, _, rfl, .inl (digits.2 c List.mem_cons_self)⟩

/-- The decimal numbers that are read are just those of the schema. -/
theorem decimal?_eq_some {text : List Char} {d : Double} :
    decimal? text = some d ↔ IsDecimal text d := by
  constructor
  · intro h
    cases hsign : Double.splitSign text with
    | mk negative body =>
    obtain ⟨sign, hsigned, htext⟩ := splitSign_sign hsign
    unfold decimal? at h
    rw [hsign] at h
    cases body with
    | nil => cases h
    | cons c cs =>
    obtain ⟨hc, hread⟩ := Option.ite_none_right_eq_some.1 h
    cases hsplit : splitDigits (c :: cs) with
    | mk whole behind =>
    obtain ⟨fraction, rest⟩ := behind
    rw [read?_of_leading hsign rfl (by simpa using hc) hsplit] at hread
    obtain ⟨hsome, hpower⟩ := Option.ite_none_left_eq_some.1 hread
    obtain ⟨n, hn, rfl⟩ := Option.map_eq_some_iff.1 hpower
    obtain ⟨mantissa, hmantissa, hdigits⟩ := splitDigits_eq hsplit hsome
    rw [htext, hdigits]
    exact .intro hsigned hmantissa (exponentPart?_eq_some.1 hn)
  · rintro ⟨signs, digits, exponent⟩
    rename_i sign mantissa whole fraction power negative n
    obtain ⟨c, cs, rfl, hc⟩ := digits.head
    obtain ⟨hsplit, hsome⟩ := splitDigits_append digits exponent
    have hhead : ∀ x ∈ (c :: cs ++ power).head?, x ≠ '+' ∧ x ≠ '-' := by
      rintro _ ⟨⟩
      rcases hc with hc | rfl
      · exact ⟨digit_ne hc rfl, digit_ne hc rfl⟩
      · decide
    have hsign := splitSign_append signs hhead
    have hleads : (isAsciiDigit c || decide (c = '.')) = true := by simpa using hc
    rw [decimal?, hsign, List.cons_append]
    dsimp only
    rw [if_pos hleads, ← List.cons_append, read?_of_leading hsign rfl hc hsplit, if_neg hsome,
      exponentPart?_eq_some.2 exponent]
    rfl

/-! ## Numbers in another base -/

/-- A whole number as a decimal without an exponent. -/
theorem ofDecimal_whole (n : Nat) : Double.ofDecimal false n 0 = .ofNat n := by
  unfold Double.ofDecimal Double.ofNat
  split
  · rename_i hn
    rw [hn]
    rfl
  · have hrange : ¬ (400 : Int) < 0 ∧ ¬ (0 : Int) + n.log2 + 1 < -400 := by omega
    rw [if_neg hrange.1, if_neg hrange.2]
    simp

theorem inBase?_eq_some {base : Nat} {isDigit : Char → Bool} {digits : List Char} {d : Double} :
    inBase? base isDigit digits = some d ↔
      IsRun isDigit digits ∧ d = .ofNat (digitsValue base digits) ∧ digitsValue base digits < wholeLimit := by
  have hrun : (digits = [] || !digits.all isDigit) = false ↔ IsRun isDigit digits := by
    simp [IsRun]
  unfold inBase?
  split
  · rename_i h
    simp [← hrun, h]
  · rename_i h
    rw [Bool.not_eq_true, hrun] at h
    simp [h, ofDecimal_whole, eq_comm, and_comm]

/-- Behind a zero a decimal number goes on with no letter but the mark of an exponent. -/
theorem decimal?_based {c : Char} (hc : c = 'o' ∨ c = 'x') (digits : List Char) :
    decimal? ('0' :: c :: digits) = none := by
  have hsign : Double.splitSign ('0' :: c :: digits) = (false, '0' :: c :: digits) := rfl
  have hsplit : splitDigits ('0' :: c :: digits) = (['0'], [], c :: digits) := by
    rcases hc with rfl | rfl <;> rfl
  have hpower : Double.exponentPart? (c :: digits) = none := by
    rcases hc with rfl | rfl <;> rfl
  rw [decimal?, hsign]
  dsimp only
  rw [read?_of_leading hsign rfl (.inl rfl) hsplit, hpower]
  rfl

/-- The texts of digits that are read, and as what. -/
theorem number?_eq_some {text : List Char} {d : Double} :
    number? text = some d ↔ IsNumeral text d ∧ ¬ IsOversized text := by
  unfold number?
  split
  · rename_i digits
    rw [inBase?_eq_some, isOversized_octal, Nat.not_le]
    constructor
    · rintro ⟨hrun, rfl, hsmall⟩
      exact ⟨.octal hrun, hsmall⟩
    · rintro ⟨hnumeral, hsmall⟩
      generalize htext : '0' :: 'o' :: digits = text at hnumeral
      cases hnumeral with
      | decimal h =>
        rw [← htext, ← decimal?_eq_some, decimal?_based (.inl rfl)] at h
        cases h
      | octal hrun =>
        cases htext
        exact ⟨hrun, rfl, hsmall⟩
      | hexadecimal => cases htext
  · rename_i digits
    rw [inBase?_eq_some, isOversized_hexadecimal, Nat.not_le]
    constructor
    · rintro ⟨hrun, rfl, hsmall⟩
      exact ⟨.hexadecimal hrun, hsmall⟩
    · rintro ⟨hnumeral, hsmall⟩
      generalize htext : '0' :: 'x' :: digits = text at hnumeral
      cases hnumeral with
      | decimal h =>
        rw [← htext, ← decimal?_eq_some, decimal?_based (.inr rfl)] at h
        cases h
      | octal => cases htext
      | hexadecimal hrun =>
        cases htext
        exact ⟨hrun, rfl, hsmall⟩
  · rename_i hoctal hhex
    rw [decimal?_eq_some]
    constructor
    · intro h
      refine ⟨.decimal h, ?_⟩
      rintro ⟨digits, ⟨rfl, -⟩ | ⟨rfl, -⟩⟩
      · exact hoctal digits rfl
      · exact hhex digits rfl
    · rintro ⟨h | hrun | hrun, -⟩
      · exact h
      · exact absurd rfl (hoctal _)
      · exact absurd rfl (hhex _)

/-! ## Words -/

/-- The words, each with the value that it denotes. -/
def wordValues : List (String × ScalarValue) :=
  nullWords.map (·, .null) ++ (boolWords true).map (·, .bool true) ++
    (boolWords false).map (·, .bool false) ++
    [".inf", ".Inf", ".INF", "+.inf", "+.Inf", "+.INF"].map (·, .number (.infinite false)) ++
    ["-.inf", "-.Inf", "-.INF"].map (·, .number (.infinite true)) ++
    [".nan", ".NaN", ".NAN"].map (·, .number .nan)

theorem word?_eq_some {text : String} {value : ScalarValue} :
    word? text = some value ↔ (text, value) ∈ wordValues := by
  constructor
  · intro h
    unfold word? at h
    simp only [wordValues, List.mem_append, List.mem_map, Prod.mk.injEq]
    split_ifs at h with hnull htrue hfalse hplus hminus hnan
    all_goals
      cases h
      simp_all [nullWords, boolWords]
  · have hall : ∀ p ∈ wordValues, word? p.1 = some p.2 := by decide
    exact hall (text, value)

/-- No word is made of digits in any base. -/
theorem word_not_numeral {text : String} {value : ScalarValue} (h : (text, value) ∈ wordValues) :
    (∀ d, ¬ IsNumeral text.toList d) ∧ ¬ IsOversized text.toList := by
  have hall : ∀ p ∈ wordValues, number? p.1.toList = none ∧ p.1.toList.head? ≠ some '0' := by decide
  obtain ⟨hnone, hhead⟩ := hall _ h
  have hsmall : ¬ IsOversized text.toList := by
    rintro ⟨digits, ⟨h, -⟩ | ⟨h, -⟩⟩
    · exact hhead (by rw [h]; rfl)
    · exact hhead (by rw [h]; rfl)
  refine ⟨fun d hnumeral => ?_, hsmall⟩
  rw [number?_eq_some.2 ⟨hnumeral, hsmall⟩] at hnone
  cases hnone

theorem isNumber_iff {text : String} {d : Double} :
    IsNumber text.toList d ↔ (text, .number d) ∈ wordValues ∨ IsNumeral text.toList d := by
  constructor
  · intro h
    generalize hlist : text.toList = list at h
    obtain rfl := String.ofList_toList.symm.trans (congrArg String.ofList hlist)
    cases h with
    | numeral h => exact .inr h
    | infinite signs words =>
      simp only [List.mem_cons, List.not_mem_nil, or_false] at words
      left
      rcases words with rfl | rfl | rfl <;> cases signs <;> decide
    | notANumber words =>
      simp only [List.mem_cons, List.not_mem_nil, or_false] at words
      left
      rcases words with rfl | rfl | rfl <;> decide
  · rintro (h | h)
    · have hplain : ∀ word ∈ [".inf", ".Inf", ".INF"], IsNumber word.toList (.infinite false) :=
        fun _ => .infinite .absent
      have hplus : ∀ word ∈ [".inf", ".Inf", ".INF"], IsNumber ('+' :: word.toList) (.infinite false) :=
        fun _ => .infinite .plus
      have hminus : ∀ word ∈ [".inf", ".Inf", ".INF"], IsNumber ('-' :: word.toList) (.infinite true) :=
        fun _ => .infinite .minus
      simp [wordValues] at h
      rcases h with ⟨rfl, rfl⟩ | ⟨rfl, rfl⟩ | ⟨rfl, rfl⟩ | ⟨rfl, rfl⟩ | ⟨rfl, rfl⟩ | ⟨rfl, rfl⟩ |
        ⟨rfl, rfl⟩ | ⟨rfl, rfl⟩ | ⟨rfl, rfl⟩ | ⟨rfl, rfl⟩ | ⟨rfl, rfl⟩ | ⟨rfl, rfl⟩
      · exact hplain ".inf" (by decide)
      · exact hplain ".Inf" (by decide)
      · exact hplain ".INF" (by decide)
      · exact hplus ".inf" (by decide)
      · exact hplus ".Inf" (by decide)
      · exact hplus ".INF" (by decide)
      · exact hminus ".inf" (by decide)
      · exact hminus ".Inf" (by decide)
      · exact hminus ".INF" (by decide)
      all_goals exact .notANumber (by decide)
    · exact .numeral h

/-! ## Values -/

/-- A text with its value: a word, digits that can be read, or what is neither. -/
theorem resolvePlain_cases (text : String) :
    (text, resolvePlain text) ∈ wordValues ∨
      (∀ value, (text, value) ∉ wordValues) ∧
        ((∃ d, resolvePlain text = .number d ∧ IsNumeral text.toList d ∧ ¬ IsOversized text.toList) ∨
          resolvePlain text = .string text ∧
            ∀ d, IsNumeral text.toList d → IsOversized text.toList) := by
  unfold resolvePlain
  cases hword : word? text with
  | some value => exact .inl (word?_eq_some.1 hword)
  | none =>
    refine .inr ⟨fun value h => ?_, ?_⟩
    · rw [word?_eq_some.2 h] at hword
      cases hword
    · cases hnumber : number? text.toList with
      | some d => exact .inl ⟨d, rfl, number?_eq_some.1 hnumber⟩
      | none =>
        refine .inr ⟨rfl, fun d hd => ?_⟩
        by_contra hsmall
        rw [number?_eq_some.2 ⟨hd, hsmall⟩] at hnumber
        cases hnumber

/-- The value of a word is the only one that it has. -/
theorem resolvePlain_word {text : String} {value : ScalarValue} (h : (text, value) ∈ wordValues) :
    resolvePlain text = value := by
  rw [resolvePlain, word?_eq_some.2 h]

theorem resolvePlain_number {text : String} {d : Double} :
    resolvePlain text = .number d ↔ IsNumber text.toList d ∧ ¬ IsOversized text.toList := by
  rw [isNumber_iff]
  constructor
  · intro h
    rcases resolvePlain_cases text with hword | ⟨-, ⟨d', hd, hnumeral⟩ | ⟨hstring, -⟩⟩
    · rw [h] at hword
      exact ⟨.inl hword, (word_not_numeral hword).2⟩
    · rw [h] at hd
      cases hd
      exact ⟨.inr hnumeral.1, hnumeral.2⟩
    · rw [h] at hstring
      cases hstring
  · rintro ⟨hword | hnumeral, hsmall⟩
    · exact resolvePlain_word hword
    · have hnone : word? text = none := by
        cases hword : word? text with
        | none => rfl
        | some value => exact absurd hnumeral ((word_not_numeral (word?_eq_some.1 hword)).1 d)
      rw [resolvePlain, hnone]
      dsimp only
      rw [number?_eq_some.2 ⟨hnumeral, hsmall⟩]

theorem word_not_string {text : String} {value : ScalarValue} (h : (text, value) ∈ wordValues)
    (s : String) : value ≠ .string s := by
  have hall : ∀ p ∈ wordValues, ∀ s, p.2 ≠ .string s := by
    simp only [wordValues, List.forall_mem_append, List.forall_mem_map]
    and_intros <;> nofun
  exact hall _ h s

/-- Null and the booleans are words. -/
theorem resolvePlain_eq_word {text : String} {value : ScalarValue}
    (hvalue : value = .null ∨ ∃ b, value = .bool b) :
    resolvePlain text = value ↔ (text, value) ∈ wordValues := by
  refine ⟨fun h => ?_, resolvePlain_word⟩
  rcases resolvePlain_cases text with hword | ⟨-, ⟨d, hd, -⟩ | ⟨htext, -⟩⟩
  · rw [← h]
    exact hword
  · rw [hd] at h
    subst h
    simp at hvalue
  · rw [htext] at h
    subst h
    simp at hvalue

/-- What is text is the whole text. -/
theorem resolvePlain_string {text s : String} (h : resolvePlain text = .string s) : s = text := by
  rcases resolvePlain_cases text with hword | ⟨-, ⟨d, hd, -⟩ | ⟨htext, -⟩⟩
  · exact absurd h (word_not_string hword s)
  · rw [h] at hd
    cases hd
  · rw [h] at htext
    exact ScalarValue.string.inj htext

/--
The value of every text: null and the booleans are fixed words, the numbers are the texts of its
forms that are not oversized, and any other text stands for itself.
-/
theorem resolvePlain_classified (text : String) :
    (resolvePlain text = .null ↔ text ∈ nullWords) ∧
      (∀ b, resolvePlain text = .bool b ↔ text ∈ boolWords b) ∧
      (∀ d, resolvePlain text = .number d ↔ IsNumber text.toList d ∧ ¬ IsOversized text.toList) ∧
      (∀ s, resolvePlain text = .string s ↔ s = text ∧ text ∉ nullWords ∧ (∀ b, text ∉ boolWords b) ∧
        ∀ d, IsNumber text.toList d → IsOversized text.toList) := by
  have hnull : resolvePlain text = .null ↔ text ∈ nullWords := by
    rw [resolvePlain_eq_word (.inl rfl)]
    simp [wordValues]
  have hbool : ∀ b, resolvePlain text = .bool b ↔ text ∈ boolWords b := by
    intro b
    rw [resolvePlain_eq_word (.inr ⟨b, rfl⟩)]
    cases b <;> simp [wordValues]
  refine ⟨hnull, hbool, fun d => resolvePlain_number, fun s => ?_⟩
  rw [← hnull]
  simp only [← hbool]
  constructor
  · intro h
    refine ⟨resolvePlain_string h, by simp [h], by simp [h], fun d hd => ?_⟩
    by_contra hsmall
    rw [resolvePlain_number.2 ⟨hd, hsmall⟩] at h
    cases h
  · rintro ⟨rfl, hnotNull, hnotBool, hnumber⟩
    cases hvalue : resolvePlain s with
    | null => exact absurd hvalue hnotNull
    | bool b => exact absurd hvalue (hnotBool b)
    | number d =>
      obtain ⟨hd, hsmall⟩ := resolvePlain_number.1 hvalue
      exact absurd (hnumber d hd) hsmall
    | string t => rw [resolvePlain_string hvalue]

/-- Digits in another base that make up at most 53 bits are read exactly. -/
theorem resolvePlain_based {mark : Char} {base : Nat} {isDigit : Char → Bool} {digits : List Char}
    (hform : (mark, base, isDigit) ∈ [('o', 8, isOctalDigit), ('x', 16, isHexDigit)])
    (hrun : IsRun isDigit digits) (hsmall : digitsValue base digits < 2 ^ 53) :
    ∃ x : Magnitude, resolvePlain (String.ofList ('0' :: mark :: digits)) = .number (.finite false x) ∧
      x.whole? = some (digitsValue base digits) := by
  obtain ⟨x, hx, hwhole⟩ := Double.ofNat_whole hsmall
  have hlimit : digitsValue base digits < wholeLimit := Nat.lt_trans hsmall (by decide)
  refine ⟨x, ?_, hwhole⟩
  rw [resolvePlain_number, isNumber_iff, String.toList_ofList, ← hx]
  simp only [List.mem_cons, List.not_mem_nil, or_false, Prod.mk.injEq] at hform
  rcases hform with ⟨rfl, rfl, rfl⟩ | ⟨rfl, rfl, rfl⟩
  · exact ⟨.inr (.octal hrun), by rwa [isOversized_octal, Nat.not_le]⟩
  · exact ⟨.inr (.hexadecimal hrun), by rwa [isOversized_hexadecimal, Nat.not_le]⟩

end MessageCatalog.Yaml
