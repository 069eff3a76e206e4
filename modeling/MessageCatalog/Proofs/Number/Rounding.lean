/-
Rounding to the nearest double. A positive fraction that lies in the interval around a magnitude is
rounded to it; the ends of the interval belong to it when the mantissa is even.
-/
import Mathlib.Algebra.Order.Field.Power
import Mathlib.Algebra.Order.Ring.Rat
import Mathlib.Tactic.FieldSimp
import Mathlib.Tactic.Linarith
import Mathlib.Tactic.Positivity
import MessageCatalog.Number.Shortest

namespace MessageCatalog.Double

/-! ## Intervals -/

/-- Half way down from a mantissa to the next magnitude, which is nearer below a power of two. -/
def lowerMantissa (m : Nat) (e : Int) : ℚ :=
  if m = 2 ^ 52 ∧ minExponent < e then m - 1 / 4 else m - 1 / 2

/-- A number that is nearest to `m · 2 ^ e`. -/
structure RoundsTo (m : Nat) (e : Int) (q : ℚ) : Prop where
  low : lowerMantissa m e * 2 ^ e < q ∨ m % 2 = 0 ∧ lowerMantissa m e * 2 ^ e = q
  high : q < (m + 1 / 2) * 2 ^ e ∨ m % 2 = 0 ∧ q = (m + 1 / 2) * 2 ^ e

theorem two_zpow_pos (e : Int) : (0 : ℚ) < 2 ^ e := zpow_pos (by norm_num) e

theorem lowerMantissa_le (m : Nat) (e : Int) :
    (m : ℚ) - 1 / 2 ≤ lowerMantissa m e ∧ lowerMantissa m e ≤ m - 1 / 4 := by
  unfold lowerMantissa
  split <;> constructor <;> linarith

/-! ## Halves -/

/-- A fraction within a half of a natural number is rounded to it; at a half, if it is even. -/
theorem roundHalfEven_eq {n d m : Nat} (hd : 0 < d)
    (hlow : 2 * (d * m) < 2 * n + d ∨ m % 2 = 0 ∧ 2 * (d * m) = 2 * n + d)
    (hhigh : 2 * n < 2 * (d * m) + d ∨ m % 2 = 0 ∧ 2 * n = 2 * (d * m) + d) : roundHalfEven n d = m := by
  have hn := Nat.div_add_mod n d
  have hr := Nat.mod_lt n hd
  unfold roundHalfEven
  generalize n / d = q at hn ⊢
  generalize n % d = r at hn hr ⊢
  -- the quotient is the number itself or the one below
  have hle : q ≤ m := by
    by_contra hgt
    have := Nat.mul_le_mul_left d (Nat.lt_of_not_le hgt)
    rw [Nat.mul_succ] at this
    omega
  have hge : m ≤ q + 1 := by
    by_contra hlt
    have := Nat.mul_le_mul_left d (Nat.lt_of_not_le hlt)
    rw [Nat.mul_succ, Nat.mul_succ] at this
    omega
  rcases Nat.eq_or_lt_of_le hle with rfl | hlt
  · dsimp only
    split
    · rfl
    · split <;> omega
  · obtain rfl : m = q + 1 := Nat.le_antisymm hge hlt
    rw [Nat.mul_succ] at hlow hhigh
    dsimp only
    split
    · omega
    · split <;> omega

theorem scaled_ratio {num den : Nat} (hden : 0 < den) (e : Int) :
    0 < (scaled num den e).2 ∧
      ((scaled num den e).1 : ℚ) / (scaled num den e).2 = num / den / 2 ^ e := by
  have hdenq : (den : ℚ) ≠ 0 := by exact_mod_cast Nat.ne_of_gt hden
  rcases Int.le_total 0 e with he | he
  · obtain ⟨n, rfl⟩ := Int.eq_ofNat_of_zero_le he
    refine ⟨Nat.mul_pos hden (Nat.pow_pos (by decide)), ?_⟩
    simp [scaled]
    field_simp
  · obtain ⟨n, hn⟩ := Int.eq_ofNat_of_zero_le (Int.neg_nonneg_of_nonpos he)
    obtain rfl : e = -n := by omega
    refine ⟨Nat.mul_pos hden (Nat.pow_pos (by decide)), ?_⟩
    simp [scaled]
    field_simp

/-- A fraction whose value in units of `2 ^ e` is near to a natural number. -/
theorem roundHalfEven_scaled {num den m : Nat} {e : Int} (hden : 0 < den)
    (hlow : ((m : ℚ) - 1 / 2) * 2 ^ e < num / den ∨ m % 2 = 0 ∧ ((m : ℚ) - 1 / 2) * 2 ^ e = num / den)
    (hhigh : (num : ℚ) / den < (m + 1 / 2) * 2 ^ e ∨ m % 2 = 0 ∧ (num : ℚ) / den = (m + 1 / 2) * 2 ^ e) :
    roundHalfEven (scaled num den e).1 (scaled num den e).2 = m := by
  obtain ⟨hd, hratio⟩ := scaled_ratio hden e
  generalize (scaled num den e).1 = n at hratio ⊢
  generalize (scaled num den e).2 = d at hd hratio ⊢
  have hdq : (0 : ℚ) < d := by exact_mod_cast hd
  have hvalue : (num : ℚ) / den = n / d * 2 ^ e := by
    rw [hratio, div_mul_cancel₀ _ (two_zpow_pos e).ne']
  rw [hvalue] at hlow hhigh
  have hcancel := (two_zpow_pos e).ne'
  refine roundHalfEven_eq hd ?_ ?_
  · rcases hlow with h | ⟨heven, h⟩
    · left
      have h := lt_of_mul_lt_mul_right h (two_zpow_pos e).le
      rw [lt_div_iff₀ hdq] at h
      have : (2 * (d * m) : ℚ) < 2 * n + d := by linarith
      exact_mod_cast this
    · right
      have h := mul_right_cancel₀ hcancel h
      rw [eq_div_iff hdq.ne'] at h
      have : (2 * (d * m) : ℚ) = 2 * n + d := by linarith
      exact ⟨heven, by exact_mod_cast this⟩
  · rcases hhigh with h | ⟨heven, h⟩
    · left
      have h := lt_of_mul_lt_mul_right h (two_zpow_pos e).le
      rw [div_lt_iff₀ hdq] at h
      have : (2 * n : ℚ) < 2 * (d * m) + d := by linarith
      exact_mod_cast this
    · right
      have h := mul_right_cancel₀ hcancel h
      rw [div_eq_iff hdq.ne'] at h
      have : (2 * n : ℚ) = 2 * (d * m) + d := by linarith
      exact ⟨heven, by exact_mod_cast this⟩

/-! ## Binades -/

/-- A fraction by the powers of two around its parts. -/
theorem ratio_log2 {num den : Nat} (hnum : 0 < num) (hden : 0 < den) :
    (2 : ℚ) ^ ((num.log2 : Int) - den.log2 - 1) < num / den ∧
      (num : ℚ) / den < 2 ^ ((num.log2 : Int) - den.log2 + 1) := by
  have hdenq : (0 : ℚ) < den := by exact_mod_cast hden
  have hnumlow : (2 : ℚ) ^ num.log2 ≤ num := by exact_mod_cast Nat.log2_self_le hnum.ne'
  have hnumhigh : (num : ℚ) < 2 ^ (num.log2 + 1) := by exact_mod_cast Nat.lt_log2_self
  have hdenlow : (2 : ℚ) ^ den.log2 ≤ den := by exact_mod_cast Nat.log2_self_le hden.ne'
  have hdenhigh : (den : ℚ) < 2 ^ (den.log2 + 1) := by exact_mod_cast Nat.lt_log2_self
  have hlow : (2 : ℚ) ^ ((num.log2 : Int) - den.log2 - 1) = 2 ^ num.log2 / 2 ^ (den.log2 + 1) := by
    rw [show (num.log2 : Int) - den.log2 - 1 = (num.log2 : Int) - ((den.log2 + 1 : Nat) : Int) by omega,
      zpow_sub₀ (by norm_num), zpow_natCast, zpow_natCast]
  have hhigh : (2 : ℚ) ^ ((num.log2 : Int) - den.log2 + 1) = 2 ^ (num.log2 + 1) / 2 ^ den.log2 := by
    rw [show (num.log2 : Int) - den.log2 + 1 = ((num.log2 + 1 : Nat) : Int) - den.log2 by omega,
      zpow_sub₀ (by norm_num), zpow_natCast, zpow_natCast]
  rw [hlow, hhigh, div_lt_div_iff₀ (by positivity) hdenq, div_lt_div_iff₀ hdenq (by positivity)]
  constructor
  · calc (2 : ℚ) ^ num.log2 * den ≤ num * den := by gcongr
      _ < num * 2 ^ (den.log2 + 1) := by gcongr
  · calc (num : ℚ) * 2 ^ den.log2 ≤ num * den := by gcongr
      _ < 2 ^ (num.log2 + 1) * den := by gcongr

theorem two_zpow_add (n e : Int) : (2 : ℚ) ^ (n + e) = 2 ^ n * 2 ^ e := zpow_add₀ (by norm_num) n e

/-- The whole part of a scaled fraction is compared with a natural number as the fraction is. -/
theorem scaled_div_lt {num den : Nat} (hden : 0 < den) (e : Int) (m : Nat) :
    (scaled num den e).1 / (scaled num den e).2 < m ↔ (num : ℚ) / den < m * 2 ^ e := by
  obtain ⟨hd, hratio⟩ := scaled_ratio hden e
  rw [Nat.div_lt_iff_lt_mul hd, ← div_lt_iff₀ (two_zpow_pos e), ← hratio,
    div_lt_iff₀ (by exact_mod_cast hd)]
  exact_mod_cast Iff.rfl

/-- The exponent of a fraction leaves 53 bits for the mantissa, or is the least one. -/
theorem exponentOf_bounds {num den : Nat} (hnum : 0 < num) (hden : 0 < den) :
    (num : ℚ) / den < 2 ^ 53 * 2 ^ exponentOf num den ∧ minExponent ≤ exponentOf num den ∧
      (exponentOf num den = minExponent ∨ 2 ^ 52 * 2 ^ exponentOf num den ≤ (num : ℚ) / den) := by
  obtain ⟨hlow, hhigh⟩ := ratio_log2 hnum hden
  obtain ⟨guess, hguess⟩ : ∃ guess : Int, (num.log2 : Int) - den.log2 - 52 = guess := ⟨_, rfl⟩
  rw [show (num.log2 : Int) - den.log2 - 1 = 51 + guess by omega, two_zpow_add] at hlow
  rw [show (num.log2 : Int) - den.log2 + 1 = 53 + guess by omega, two_zpow_add] at hhigh
  have htest : (scaled num den guess).1 / (scaled num den guess).2 < 2 ^ 52 ↔
      (num : ℚ) / den < ((2 ^ 52 : Nat) : ℚ) * 2 ^ guess := scaled_div_lt hden guess (2 ^ 52)
  -- the guess is right or one too high
  obtain ⟨e, he, hbelow, habove⟩ : ∃ e : Int,
      e = (if (scaled num den guess).1 / (scaled num den guess).2 < Nat.pow 2 52 then guess - 1 else guess) ∧
      (num : ℚ) / den < 2 ^ 53 * 2 ^ e ∧ 2 ^ 52 * 2 ^ e ≤ (num : ℚ) / den := by
    by_cases hsmall : (scaled num den guess).1 / (scaled num den guess).2 < Nat.pow 2 52
    · have hpred : (2 : ℚ) ^ guess = 2 * 2 ^ (guess - 1) := by
        rw [show guess = 1 + (guess - 1) by omega, two_zpow_add]
        norm_num
      have hq := htest.1 hsmall
      refine ⟨guess - 1, (if_pos hsmall).symm, ?_, ?_⟩
      · push_cast at hq
        linarith
      · norm_num at hlow
        linarith
    · have hq := mt htest.2 hsmall
      refine ⟨guess, (if_neg hsmall).symm, by exact_mod_cast hhigh, ?_⟩
      push_cast at hq
      exact not_lt.1 hq
  have hexponent : exponentOf num den = max e minExponent := by
    rw [he, ← hguess]
    rfl
  rw [hexponent]
  rcases le_total minExponent e with hle | hle
  · rw [max_eq_left hle]
    exact ⟨hbelow, hle, .inr habove⟩
  · rw [max_eq_right hle]
    refine ⟨lt_of_lt_of_le hbelow ?_, le_refl _, .inl rfl⟩
    have := zpow_le_zpow_right₀ (by norm_num : (1 : ℚ) ≤ 2) hle
    linarith

theorem two_zpow_succ (e : Int) : (2 : ℚ) ^ (e + 1) = 2 * 2 ^ e := by
  rw [Int.add_comm, two_zpow_add]
  norm_num

section

variable {m : Nat} {e : Int} {q : ℚ}

theorem RoundsTo.half_le (h : RoundsTo m e q) :
    ((m : ℚ) - 1 / 2) * 2 ^ e < q ∨ m % 2 = 0 ∧ ((m : ℚ) - 1 / 2) * 2 ^ e = q := by
  have hlow := h.low
  unfold lowerMantissa at hlow
  split at hlow
  · have hp := two_zpow_pos e
    left
    rcases hlow with h | ⟨-, h⟩ <;> linarith
  · exact hlow

theorem RoundsTo.le (h : RoundsTo m e q) : q ≤ (m + 1 / 2) * 2 ^ e := by
  rcases h.high with h | ⟨-, h⟩
  · exact h.le
  · exact h.le

theorem RoundsTo.ge (h : RoundsTo m e q) : lowerMantissa m e * 2 ^ e ≤ q := by
  rcases h.low with h | ⟨-, h⟩
  · exact h.le
  · exact h.le

end

/-- What is nearest to a magnitude has its exponent, or lies just below a power of two. -/
theorem exponent_of_roundsTo {num den : Nat} {x : Magnitude} (hnum : 0 < num) (hden : 0 < den)
    (h : RoundsTo x.mantissa x.exponent (num / den)) :
    x.exponent = exponentOf num den ∨ x.mantissa = 2 ^ 52 ∧ x.exponent = exponentOf num den + 1 := by
  obtain ⟨hbelow, hleast, habove⟩ := exponentOf_bounds hnum hden
  obtain ⟨m, e, hm, he, hmost, hbits⟩ := x
  generalize exponentOf num den = k at hbelow hleast habove ⊢
  dsimp only at h ⊢
  have hmantissa : (m : ℚ) + 1 ≤ 2 ^ 53 := by exact_mod_cast hm
  have hp := two_zpow_pos k
  rcases lt_trichotomy e k with hlt | heq | hgt
  · have hk := habove.resolve_left (by omega)
    have hpower : 2 * (2 : ℚ) ^ e ≤ 2 ^ k := by
      rw [← two_zpow_succ]
      exact zpow_le_zpow_right₀ (by norm_num) hlt
    have hle := h.le
    have := two_zpow_pos e
    nlinarith
  · exact .inl heq
  · have hfull : 2 ^ 52 ≤ m := hbits.resolve_right (by omega)
    have hfullq : (2 : ℚ) ^ 52 ≤ m := by exact_mod_cast hfull
    have hge := h.ge
    have hlower := (lowerMantissa_le m e).1
    have hpower : (2 : ℚ) ^ e = 2 ^ (e - k - 1) * (2 * 2 ^ k) := by
      rw [← two_zpow_succ, ← two_zpow_add]
      congr 1
      omega
    have hsucc : e = k + 1 := by
      by_contra hne
      have hfour : (2 : ℚ) ^ (1 : Int) ≤ 2 ^ (e - k - 1) :=
        zpow_le_zpow_right₀ (by norm_num) (by omega)
      rw [zpow_one] at hfour
      have : 4 * (2 : ℚ) ^ k ≤ 2 ^ e := by nlinarith
      nlinarith
    subst hsucc
    rw [two_zpow_succ] at hge
    have hle : (m : ℚ) < 2 ^ 52 + 1 := by nlinarith
    have hle' : m < 2 ^ 52 + 1 := by exact_mod_cast hle
    exact .inr ⟨Nat.le_antisymm (Nat.le_of_lt_succ hle') hfull, rfl⟩

/-- A mantissa that was rounded up to 54 bits is halved. -/
theorem ofRatio_of_round {num den m : Nat} {x : Magnitude} {negative : Bool} (hnum : 0 < num)
    (hround : roundHalfEven (scaled num den (exponentOf num den)).1
      (scaled num den (exponentOf num den)).2 = m)
    (hx : (if m = Nat.pow 2 53 then (Nat.pow 2 52, exponentOf num den + 1) else (m, exponentOf num den)) =
      (x.mantissa, x.exponent)) : ofRatio negative num den = .finite negative x := by
  rw [ofRatio, if_neg hnum.ne']
  dsimp only
  rw [hround, hx]
  exact dif_pos x.canonical

/-- What is nearest to a magnitude is rounded to it. -/
theorem ofRatio_eq {num den : Nat} {x : Magnitude} (hnum : 0 < num) (hden : 0 < den)
    (h : RoundsTo x.mantissa x.exponent (num / den)) (negative : Bool) :
    ofRatio negative num den = .finite negative x := by
  rcases exponent_of_roundsTo hnum hden h with hexponent | ⟨hmantissa, hexponent⟩
  · have hround := roundHalfEven_scaled hden h.half_le h.high
    rw [hexponent] at hround
    refine ofRatio_of_round hnum hround ?_
    rw [if_neg x.canonical.1.ne, hexponent]
  · obtain ⟨hbelow, hleast, -⟩ := exponentOf_bounds hnum hden
    have hlower : lowerMantissa x.mantissa x.exponent = 2 ^ 52 - 1 / 4 := by
      rw [lowerMantissa, if_pos ⟨hmantissa, by omega⟩, hmantissa]
      norm_num
    have hlow := h.low
    rw [hlower, hexponent, two_zpow_succ] at hlow
    have hp := two_zpow_pos (exponentOf num den)
    have hround : roundHalfEven (scaled num den (exponentOf num den)).1
        (scaled num den (exponentOf num den)).2 = Nat.pow 2 53 := by
      rw [Nat.pow_eq]
      refine roundHalfEven_scaled hden ?_ (.inl ?_)
      · push_cast
        refine hlow.imp (fun h => by linarith) fun h => ⟨by norm_num, ?_⟩
        linarith [h.2]
      · push_cast
        linarith
    refine ofRatio_of_round hnum hround ?_
    rw [if_pos rfl, hmantissa, hexponent]
    rfl

/-! ## Whole numbers -/

/-- A magnitude is nearest to itself. -/
theorem roundsTo_self (m : Nat) (e : Int) : RoundsTo m e (m * 2 ^ e) := by
  have hp := two_zpow_pos e
  have hlow := (lowerMantissa_le m e).2
  exact ⟨.inl (by nlinarith), .inl (by nlinarith)⟩

/-- The canonical form of zero. -/
theorem eq_signedZero {x : Magnitude} (hx : x.mantissa = 0) (negative : Bool) :
    Double.finite negative x = signedZero negative := by
  cases x with
  | mk m e canonical =>
    obtain rfl : m = 0 := hx
    obtain rfl : e = minExponent := canonical.2.2.2.resolve_left (by decide)
    rfl

theorem whole?_value {x : Magnitude} {n : Nat} (h : x.whole? = some n) :
    (n : ℚ) = x.mantissa * 2 ^ x.exponent := by
  unfold Magnitude.whole? at h
  split at h
  · rename_i he
    obtain ⟨k, hk⟩ := Int.eq_ofNat_of_zero_le he
    cases h
    rw [hk]
    simp
  · split at h
    · rename_i he hdvd
      obtain ⟨k, hk⟩ := Int.eq_ofNat_of_zero_le (show 0 ≤ -x.exponent by omega)
      cases h
      rw [show x.exponent = -k by omega] at hdvd ⊢
      simp at hdvd ⊢
      have hproduct : x.mantissa / 2 ^ k * 2 ^ k = x.mantissa :=
        Nat.div_mul_cancel (Nat.dvd_of_mod_eq_zero hdvd)
      rw [eq_mul_inv_iff_mul_eq₀ (by positivity)]
      exact_mod_cast hproduct
    · cases h

/-- A magnitude that is whole is exact. -/
theorem ofInt_whole {x : Magnitude} {n : Nat} (h : x.whole? = some n) (hn : 0 < n) (negative : Bool) :
    ofInt (if negative then -n else n) = .finite negative x := by
  have hnearest : RoundsTo x.mantissa x.exponent ((n : ℚ) / (1 : Nat)) := by
    rw [whole?_value h, Nat.cast_one, div_one]
    exact roundsTo_self _ _
  rw [← ofRatio_eq hn Nat.one_pos hnearest negative, ofInt]
  cases negative with
  | false =>
    have hsign : ¬ ((n : Int) < 0) := by omega
    simp [hsign]
  | true => simp [hn]

/-- A natural number of at most 53 bits is exact. -/
theorem ofNat_whole {n : Nat} (hn : n < 2 ^ 53) :
    ∃ x : Magnitude, ofNat n = .finite false x ∧ x.whole? = some n := by
  rcases Nat.eq_zero_or_pos n with rfl | hpos
  · refine ⟨⟨0, minExponent, by decide⟩, rfl, ?_⟩
    rw [Magnitude.whole?, if_neg (by decide), if_pos (Nat.zero_mod _), Nat.zero_div]
  · have hbits : n.log2 ≤ 52 := Nat.lt_succ_iff.1 ((Nat.log2_lt hpos.ne').2 hn)
    obtain ⟨k, hk⟩ := Nat.exists_eq_add_of_le hbits
    have hlow : 2 ^ 52 ≤ n * 2 ^ k := by
      rw [hk, Nat.pow_add]
      exact Nat.mul_le_mul_right _ (Nat.log2_self_le hpos.ne')
    have hhigh : n * 2 ^ k < 2 ^ 53 := by
      rw [show 53 = n.log2 + 1 + k by omega, Nat.pow_add]
      exact Nat.mul_lt_mul_of_pos_right Nat.lt_log2_self (Nat.two_pow_pos k)
    have hcanonical : IsCanonical (n * 2 ^ k) (-k) :=
      ⟨hhigh, by unfold minExponent; omega, by unfold maxExponent; omega, .inl hlow⟩
    have hwhole : (Magnitude.mk (n * 2 ^ k) (-k) hcanonical).whole? = some n := by
      rcases Nat.eq_zero_or_pos k with rfl | hk
      · simp [Magnitude.whole?]
      · have hnegative : ¬ 0 ≤ -(k : Int) := by omega
        simp [Magnitude.whole?, hk.ne', Nat.mul_div_cancel _ (Nat.two_pow_pos k)]
    exact ⟨_, ofInt_whole hwhole hpos false, hwhole⟩

end MessageCatalog.Double
