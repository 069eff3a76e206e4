/-
Strings that are written without quotes. The writer quotes every text that the core schema takes
for a word or for a finite number, so a plain string reads back as itself unless its digits
overflow to infinity.
-/
import MessageCatalog.Proofs.Yaml.Schema
import MessageCatalog.Yaml.Write

namespace MessageCatalog.Yaml

open MessageCatalog.Text

/-- Rounding gives a number. -/
theorem ofParts_ne_nan (negative : Bool) (whole fraction : List Char) (n : Int) :
    Double.ofParts negative whole fraction n ≠ .nan := by
  have hratio : ∀ num den, Double.ofRatio negative num den ≠ .nan := by
    intro num den
    unfold Double.ofRatio
    split_ifs
    · simp [Double.signedZero]
    · dsimp only
      split_ifs <;> simp
  unfold Double.ofParts Double.ofDecimal
  split_ifs
  · simp [Double.signedZero]
  · nofun
  · simp [Double.signedZero]
  · exact hratio _ _

theorem IsDecimal.ne_nan {text : List Char} {d : Double} (h : IsDecimal text d) : d ≠ .nan := by
  cases h with
  | intro => exact ofParts_ne_nan _ _ _ _

/-- A decimal number that is finite is quoted. -/
theorem IsDecimal.finite_or_infinite {text : List Char} {d : Double} (h : IsDecimal text d) :
    isFiniteNumber text = true ∨ ∃ negative, d = .infinite negative := by
  have hread : Double.read? text = some d := by
    have hdecimal := decimal?_eq_some.2 h
    unfold decimal? at hdecimal
    split at hdecimal
    · exact (Option.ite_none_right_eq_some.1 hdecimal).2
    · cases hdecimal
  cases d with
  | finite s x =>
    left
    rw [isFiniteNumber, hread]
  | infinite negative => exact .inr ⟨negative, rfl⟩
  | nan => exact absurd rfl h.ne_nan

/-- Digits behind a prefix are quoted where they are read. -/
theorem isPrefixedWhole_of_numeral {text : List Char} {d : Double} (h : IsNumeral text d)
    (hsmall : ¬ IsOversized text) : isPrefixedWhole text = true ∨ IsDecimal text d := by
  have hbits : wholeLimit < Nat.pow 2 128 := by decide
  cases h with
  | decimal h => exact .inr h
  | octal run =>
    rw [isOversized_octal, Nat.not_le] at hsmall
    left
    simpa [isPrefixedWhole, run.1, Nat.lt_trans hsmall hbits, isOctalDigit] using run.2
  | hexadecimal run =>
    rw [isOversized_hexadecimal, Nat.not_le] at hsmall
    left
    simpa [isPrefixedWhole, run.1, Nat.lt_trans hsmall hbits] using run.2

/-- A text that is not ambiguous is no word, and digits only if they are too large to be finite. -/
theorem of_isAmbiguous_false {text : String} (h : isAmbiguous text = false) :
    (∀ value, (text, value) ∉ wordValues) ∧
      ∀ d, IsNumeral text.toList d → ¬ IsOversized text.toList →
        IsDecimal text.toList d ∧ ∃ negative, d = .infinite negative := by
  simp only [isAmbiguous, Bool.or_eq_false_iff] at h
  obtain ⟨⟨⟨⟨hreserved, hprefixed⟩, -⟩, -⟩, hfinite⟩ := h
  constructor
  · intro value hword
    have hall : ∀ p ∈ wordValues, reservedWords.contains p.1 = true := by decide
    rw [hall _ hword] at hreserved
    cases hreserved
  · intro d hnumeral hsmall
    rcases isPrefixedWhole_of_numeral hnumeral hsmall with hwhole | hdecimal
    · split at hprefixed
      · rename_i rest hplus
        rw [hplus] at hwhole
        cases hwhole
      · rw [hprefixed] at hwhole
        cases hwhole
    · refine ⟨hdecimal, hdecimal.finite_or_infinite.resolve_left ?_⟩
      rw [hfinite]
      exact Bool.false_ne_true

theorem isAmbiguous_of_plain {text : String} (h : styleOf text = .plain) : isAmbiguous text = false := by
  unfold styleOf at h
  dsimp only at h
  split_ifs at h with hline hliteral hplain
  rw [Bool.and_eq_true] at hplain
  simpa using hplain.1

/--
A string that is written without quotes reads back as the same string, unless it is a decimal number
whose digits overflow: of those the value is infinite.
-/
theorem resolvePlain_unquoted {text : String} (h : styleOf text = .plain) :
    resolvePlain text = .string text ∨
      ∃ negative, resolvePlain text = .number (.infinite negative) ∧
        IsDecimal text.toList (.infinite negative) := by
  obtain ⟨hnoWord, hinfinite⟩ := of_isAmbiguous_false (isAmbiguous_of_plain h)
  rcases resolvePlain_cases text with hword | ⟨-, ⟨d, hd, hnumeral, hsmall⟩ | ⟨hstring, -⟩⟩
  · exact absurd hword (hnoWord _)
  · obtain ⟨hdecimal, negative, rfl⟩ := hinfinite d hnumeral hsmall
    exact .inr ⟨negative, hd, hdecimal⟩
  · exact .inl hstring

end MessageCatalog.Yaml
