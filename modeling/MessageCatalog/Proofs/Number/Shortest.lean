/-
The shortest digits of a magnitude read back as it: a decimal that is chosen lies in the interval of
the magnitude, and with 17 digits there always is one.
-/
import Mathlib.Data.Nat.Digits.Defs
import MessageCatalog.Proofs.Number.Rounding

namespace MessageCatalog.Double

/-! ## Exact comparisons -/

/-- A power of a natural number by the part of its exponent above zero and the part below. -/
theorem zpow_toNat {b : ℚ} (hb : b ≠ 0) (e : Int) : b ^ e * b ^ (-e).toNat = b ^ e.toNat := by
  rw [← zpow_natCast, ← zpow_natCast, ← zpow_add₀ hb]
  congr 1
  omega

theorem compare_mul {a b : Nat} {x y d : ℚ} (hd : 0 < d) (ha : (a : ℚ) = x * d) (hb : (b : ℚ) = y * d) :
    compare a b = compare x y := by
  have hlt : a < b ↔ x < y := by
    rw [← mul_lt_mul_iff_left₀ hd, ← ha, ← hb]
    exact_mod_cast Iff.rfl
  have hgt : b < a ↔ y < x := by
    rw [← mul_lt_mul_iff_left₀ hd, ← ha, ← hb]
    exact_mod_cast Iff.rfl
  rcases lt_trichotomy x y with h | h | h
  · rw [compare_lt_iff_lt.2 h, compare_lt_iff_lt.2 (hlt.2 h)]
  · rw [compare_eq_iff_eq.2 h, compare_eq_iff_eq.2]
    exact Nat.le_antisymm (not_lt.1 (mt hgt.1 h.not_gt)) (not_lt.1 (mt hlt.1 h.not_lt))
  · rw [compare_gt_iff_gt.2 h, compare_gt_iff_gt.2 (hgt.2 h)]

theorem compareScaled_eq (a : Nat) (p : Int) (b : Nat) (q : Int) :
    compareScaled a p b q = compare ((a : ℚ) * 10 ^ p) (b * 2 ^ q) := by
  -- both sides are compared as whole numbers, multiplied by the powers that clear their denominators
  have hscale : (0 : ℚ) < 2 ^ (-q).toNat * 10 ^ (-p).toNat := by positivity
  have hleft : ((a * Nat.pow 10 p.toNat * Nat.pow 2 (-q).toNat : Nat) : ℚ) =
      a * 10 ^ p * (2 ^ (-q).toNat * 10 ^ (-p).toNat) := by
    have := zpow_toNat (b := 10) (by norm_num) p
    simp only [Nat.pow_eq]
    push_cast
    rw [← this]
    ring
  have hright : ((b * Nat.pow 2 q.toNat * Nat.pow 10 (-p).toNat : Nat) : ℚ) =
      b * 2 ^ q * (2 ^ (-q).toNat * 10 ^ (-p).toNat) := by
    have := zpow_toNat (b := 2) (by norm_num) q
    simp only [Nat.pow_eq]
    push_cast
    rw [← this]
    ring
  exact compare_mul hscale hleft hright

theorem quarter_zpow (x : ℚ) (e : Int) : 4 * x * 2 ^ (e - 2) = x * 2 ^ e := by
  have h := two_zpow_add 2 (e - 2)
  rw [show 2 + (e - 2) = e by omega] at h
  rw [h]
  norm_num
  ring

/-- The interval of a magnitude, in quarters of its unit. -/
theorem roundingInterval_eq {m : Nat} (hm : 0 < m) (e : Int) :
    ∃ low high, roundingInterval m e = (low, high, decide (m % 2 = 0)) ∧
      (low : ℚ) = 4 * lowerMantissa m e ∧ (high : ℚ) = 4 * (m + 1 / 2) := by
  unfold roundingInterval lowerMantissa
  simp only [Nat.pow_eq]
  refine ⟨_, _, rfl, ?_, by push_cast; ring⟩
  split
  · rw [Nat.cast_sub (by omega)]
    push_cast
    ring
  · rw [Nat.cast_sub (by omega)]
    push_cast
    ring

/-- What is found to read back is nearest to the magnitude. -/
theorem readsBack_iff {m : Nat} (hm : 0 < m) (e : Int) (a : Nat) (p : Int) :
    readsBack m e a p = true ↔ RoundsTo m e (a * 10 ^ p) := by
  obtain ⟨low, high, hinterval, hlow, hhigh⟩ := roundingInterval_eq hm e
  unfold readsBack
  simp only [hinterval, compareScaled_eq, hlow, hhigh, quarter_zpow, Bool.and_eq_true, Bool.or_eq_true,
    decide_eq_true_eq, compare_lt_iff_lt, compare_gt_iff_gt, compare_eq_iff_eq]
  constructor
  · rintro ⟨hl, hh⟩
    exact ⟨hl.imp id fun h => ⟨h.1, h.2.symm⟩, hh⟩
  · rintro ⟨hl, hh⟩
    exact ⟨hl.imp id fun h => ⟨h.1, h.2.symm⟩, hh⟩

/-! ## Seventeen digits -/

theorem pow_decimalLength {n : Nat} (hn : 0 < n) : (10 : ℚ) ^ ((decimalLength n : Int) - 1) ≤ n := by
  have hlength := Nat.length_toDigits_pos (b := 10) (n := n)
  rw [decimalLength, if_neg hn.ne']
  obtain ⟨k, hk⟩ := Nat.exists_eq_add_of_lt hlength
  rw [hk, show ((0 + k + 1 : Nat) : Int) - 1 = k by omega, zpow_natCast]
  rcases Nat.eq_zero_or_pos k with rfl | hpos
  · exact_mod_cast hn
  · have hiff := Nat.length_toDigits_le_iff (b := 10) (n := n) (by decide) hpos
    have hle : 10 ^ k ≤ n := Nat.le_of_not_lt fun h => absurd (hiff.2 h) (by omega)
    exact_mod_cast hle

/-- The leading digit of a magnitude stands just before the point. -/
theorem pow_leadingPoint {m : Nat} (hm : 0 < m) (e : Int) :
    (10 : ℚ) ^ (leadingPoint m e - 1) ≤ m * 2 ^ e := by
  unfold leadingPoint
  split
  · rename_i he
    obtain ⟨n, rfl⟩ := Int.eq_ofNat_of_zero_le he
    have h := pow_decimalLength (Nat.mul_pos hm (Nat.pow_pos (by decide : 0 < 2) (n := n)))
    push_cast at h
    simpa using h
  · rename_i he
    obtain ⟨n, hn⟩ := Int.eq_ofNat_of_zero_le (show 0 ≤ -e by omega)
    obtain rfl : e = -n := by omega
    have h := pow_decimalLength (Nat.mul_pos hm (Nat.pow_pos (by decide : 0 < 5) (n := n)))
    simp only [neg_neg, Int.toNat_natCast, Nat.pow_eq] at h ⊢
    rw [show ((decimalLength (m * 5 ^ n) : Int) - n - 1) = (decimalLength (m * 5 ^ n) : Int) - 1 - n by omega,
      zpow_sub₀ (by norm_num), zpow_neg, zpow_natCast, zpow_natCast, div_le_iff₀ (by positivity)]
    refine h.trans (le_of_eq ?_)
    rw [show (10 : ℚ) ^ n = 2 ^ n * 5 ^ n by rw [← mul_pow]; norm_num]
    push_cast
    field_simp

/-- The decimals on either side of a magnitude. -/
theorem grid_neighbours (m : Nat) (e p : Int) :
    let num := m * Nat.pow 2 e.toNat * Nat.pow 10 (-p).toNat
    let den := Nat.pow 2 (-e).toNat * Nat.pow 10 p.toNat
    ((num / den : Nat) : ℚ) * 10 ^ p ≤ m * 2 ^ e ∧ m * 2 ^ e < ((num / den + 1 : Nat) : ℚ) * 10 ^ p := by
  intro num den
  have hden : 0 < den := Nat.mul_pos (Nat.pow_pos (by decide)) (Nat.pow_pos (by decide))
  have hdenq : (0 : ℚ) < den := by exact_mod_cast hden
  have hvalue : (m * 2 ^ e : ℚ) = num / den * 10 ^ p := by
    have htwo := zpow_toNat (b := (2 : ℚ)) (by norm_num) e
    have hten := zpow_toNat (b := (10 : ℚ)) (by norm_num) p
    rw [div_mul_eq_mul_div, eq_div_iff hdenq.ne']
    simp only [num, den, Nat.pow_eq]
    push_cast
    rw [← htwo, ← hten]
    ring
  have hp : (0 : ℚ) < 10 ^ p := by positivity
  rw [hvalue]
  constructor
  · refine mul_le_mul_of_nonneg_right ?_ hp.le
    rw [le_div_iff₀ hdenq]
    exact_mod_cast Nat.div_mul_le_self num den
  · refine mul_lt_mul_of_pos_right ?_ hp
    rw [div_lt_iff₀ hdenq]
    exact_mod_cast (Nat.div_lt_iff_lt_mul hden).1 (Nat.lt_succ_self (num / den))

/-- A grid of which a step is below the width of the interval has a number in it. -/
theorem roundsTo_neighbour {x : Magnitude} {low high : ℚ}
    (hlow : low ≤ x.mantissa * 2 ^ x.exponent) (hhigh : x.mantissa * 2 ^ x.exponent < high)
    (hstep : 10 ^ 16 * (high - low) ≤ x.mantissa * 2 ^ x.exponent) :
    RoundsTo x.mantissa x.exponent low ∨ RoundsTo x.mantissa x.exponent high := by
  have hmost : (x.mantissa : ℚ) < 2 ^ 53 := by exact_mod_cast x.canonical.1
  generalize x.mantissa = m at *
  generalize x.exponent = e at *
  have hp := two_zpow_pos e
  have hbelow := (lowerMantissa_le m e).2
  by_cases hin : lowerMantissa m e * 2 ^ e < low
  · exact .inl ⟨.inl hin, .inl (by nlinarith)⟩
  · refine .inr ⟨.inl (by nlinarith), .inl ?_⟩
    -- if both missed, the interval would lie between them, and a step of the grid is too short for that
    by_contra hout
    have hwide : (m + 1 / 2 - lowerMantissa m e) * 2 ^ e ≤ high - low := by linarith
    unfold lowerMantissa at hwide
    split at hwide
    · rename_i hpower
      rw [hpower.1] at hwide hstep
      push_cast at hwide hstep
      nlinarith
    · nlinarith

/-- A neighbour that reads back is taken, if there is one. -/
theorem onGrid_cases (tie : Tie) (m : Nat) (e p : Int) :
    let low := m * Nat.pow 2 e.toNat * Nat.pow 10 (-p).toNat / (Nat.pow 2 (-e).toNat * Nat.pow 10 p.toNat)
    (onGrid tie m e p = some ⟨low, p⟩ ∧ readsBack m e low p = true) ∨
      (onGrid tie m e p = some ⟨low + 1, p⟩ ∧ readsBack m e (low + 1) p = true) ∨
      (onGrid tie m e p = none ∧ ¬ (readsBack m e low p = true ∨ readsBack m e (low + 1) p = true)) := by
  intro low
  obtain ⟨prefer, hgrid⟩ : ∃ prefer : Bool, onGrid tie m e p =
      if readsBack m e low p && (prefer || !readsBack m e (low + 1) p) then some ⟨low, p⟩
      else if readsBack m e (low + 1) p then some ⟨low + 1, p⟩ else none := ⟨_, rfl⟩
  rw [hgrid]
  cases readsBack m e low p <;> cases readsBack m e (low + 1) p <;> cases prefer <;> simp

/-- With 17 digits one of the neighbours reads back. -/
theorem onGrid_seventeen (tie : Tie) {x : Magnitude} (hx : 0 < x.mantissa) :
    (onGrid tie x.mantissa x.exponent (leadingPoint x.mantissa x.exponent - 17)).isSome := by
  obtain ⟨p, hp⟩ : ∃ p, leadingPoint x.mantissa x.exponent - 17 = p := ⟨_, rfl⟩
  obtain ⟨hlow, hhigh⟩ := grid_neighbours x.mantissa x.exponent p
  have hleading := pow_leadingPoint hx x.exponent
  rw [show leadingPoint x.mantissa x.exponent - 1 = 16 + p by omega, zpow_add₀ (by norm_num)] at hleading
  have hone := roundsTo_neighbour hlow hhigh (by push_cast at hleading ⊢; linarith)
  rw [← readsBack_iff hx, ← readsBack_iff hx] at hone
  rw [hp]
  rcases onGrid_cases tie x.mantissa x.exponent p with ⟨h, -⟩ | ⟨h, -⟩ | ⟨-, hnone⟩
  · rw [h]; rfl
  · rw [h]; rfl
  · exact absurd hone hnone

/-- What is taken from a grid reads back. -/
theorem onGrid_roundsTo {tie : Tie} {m : Nat} (hm : 0 < m) {e p : Int} {d : Decimal}
    (h : onGrid tie m e p = some d) : RoundsTo m e (d.digits * 10 ^ d.exponent) := by
  rw [← readsBack_iff hm]
  rcases onGrid_cases tie m e p with ⟨hgrid, hreads⟩ | ⟨hgrid, hreads⟩ | ⟨hgrid, -⟩
  · cases hgrid.symm.trans h
    exact hreads
  · cases hgrid.symm.trans h
    exact hreads
  · cases hgrid.symm.trans h

/-- The search ends on a grid with a hit, if one of the grids it tries has one. -/
theorem searchGrids_roundsTo {tie : Tie} {m : Nat} (hm : 0 < m) {e point : Int} :
    ∀ {more count : Nat}, (onGrid tie m e (point - ((count + more : Nat) : Int))).isSome →
      RoundsTo m e ((searchGrids tie m e point count (more + 1)).digits *
        10 ^ (searchGrids tie m e point count (more + 1)).exponent)
  | more, count, h => by
    rw [searchGrids]
    cases hgrid : onGrid tie m e (point - count) with
    | some d => exact onGrid_roundsTo hm hgrid
    | none =>
      cases more with
      | zero =>
        rw [Nat.add_zero, hgrid] at h
        cases h
      | succ more => exact searchGrids_roundsTo hm (by rwa [Nat.add_right_comm])

theorem normalizeGo_value (digits : Nat) (exponent : Int) (more : Nat) :
    ((Decimal.normalize.go digits exponent more).digits : ℚ) *
      10 ^ (Decimal.normalize.go digits exponent more).exponent = digits * 10 ^ exponent := by
  induction more generalizing digits exponent with
  | zero => rfl
  | succ more ih =>
    rw [Decimal.normalize.go]
    split
    · rename_i hzero
      rw [ih, zpow_add_one₀ (by norm_num)]
      have hten : digits / 10 * 10 = digits := Nat.div_mul_cancel (Nat.dvd_of_mod_eq_zero hzero.2)
      have hten : ((digits / 10 : Nat) : ℚ) * 10 = digits := by exact_mod_cast hten
      rw [← hten]
      ring
    · rfl

/-- The shortest decimal reads back. -/
theorem shortest_roundsTo (tie : Tie) {x : Magnitude} (hx : 0 < x.mantissa) :
    RoundsTo x.mantissa x.exponent ((shortest tie x.mantissa x.exponent).digits *
      10 ^ (shortest tie x.mantissa x.exponent).exponent) := by
  rw [shortest, Decimal.normalize, normalizeGo_value]
  exact searchGrids_roundsTo hx (onGrid_seventeen tie hx)

/-! ## Reading decimals -/

theorem two_pow_lt_ten_pow {a b : Nat} (hb : 0 < b) (h : a ≤ 3 * b) : (2 : ℚ) ^ a < 10 ^ b := by
  calc (2 : ℚ) ^ a ≤ 2 ^ (3 * b) := pow_le_pow_right₀ (by norm_num) h
    _ = 8 ^ b := by rw [pow_mul]; norm_num
    _ < 10 ^ b := pow_lt_pow_left₀ (by norm_num) (by norm_num) hb.ne'

section

variable {x : Magnitude} {digits : Nat} {exponent : Int}

/-- What is nearest to a magnitude is positive. -/
theorem RoundsTo.half_unit_le {m : Nat} {e : Int} {q : ℚ} (hm : 0 < m) (h : RoundsTo m e q) :
    2 ^ e / 2 ≤ q := by
  have hp := two_zpow_pos e
  have hge := h.ge
  have hlower := (lowerMantissa_le m e).1
  have hm : (1 : ℚ) ≤ m := by exact_mod_cast hm
  nlinarith

/-- The least magnitude is far above `10 ^ -401`. -/
theorem RoundsTo.ten_zpow_lt (hx : 0 < x.mantissa) {q : ℚ} (h : RoundsTo x.mantissa x.exponent q) :
    10 ^ (-401 : Int) < q := by
  have hunit : (2 : ℚ) ^ (-1074 : Int) ≤ 2 ^ x.exponent :=
    zpow_le_zpow_right₀ (by norm_num) x.canonical.2.1
  have hsmall : (10 : ℚ) ^ (-401 : Int) < 2 ^ (-1075 : Int) := by
    rw [zpow_neg, zpow_neg, zpow_ofNat, zpow_ofNat]
    exact inv_strictAnti₀ (by positivity) (two_pow_lt_ten_pow (by decide) (by decide))
  have hhalf : (2 : ℚ) ^ (-1074 : Int) = 2 * 2 ^ (-1075 : Int) := by
    rw [← two_zpow_succ, show (-1075 : Int) + 1 = -1074 by decide]
  have := h.half_unit_le hx
  linarith

/-- The greatest magnitude is far below `10 ^ 401`. -/
theorem RoundsTo.lt_ten_zpow {q : ℚ} (h : RoundsTo x.mantissa x.exponent q) : q < 10 ^ (401 : Int) := by
  have hmantissa : (x.mantissa : ℚ) + 1 ≤ 2 ^ 53 := by exact_mod_cast x.canonical.1
  have hunit : (2 : ℚ) ^ x.exponent ≤ 2 ^ (971 : Int) :=
    zpow_le_zpow_right₀ (by norm_num) x.canonical.2.2.1
  calc q ≤ (x.mantissa + 1 / 2) * 2 ^ x.exponent := h.le
    _ ≤ 2 ^ 53 * 2 ^ (971 : Int) := by
      gcongr
      linarith
    _ = 2 ^ 1024 := (pow_add (2 : ℚ) 53 971).symm
    _ < 10 ^ (401 : Int) := by
      rw [zpow_ofNat]
      exact two_pow_lt_ten_pow (by decide) (by decide)

/-- A decimal that is nearest to a magnitude is read as it: neither bound cuts it off. -/
theorem ofDecimal_eq (hx : 0 < x.mantissa) (h : RoundsTo x.mantissa x.exponent (digits * 10 ^ exponent))
    (negative : Bool) : ofDecimal negative digits exponent = .finite negative x := by
  have hleast := h.ten_zpow_lt hx
  have hmost := h.lt_ten_zpow
  have hpower : (0 : ℚ) < 10 ^ exponent := by positivity
  have hdigits : digits ≠ 0 := by
    rintro rfl
    have : (0 : ℚ) < 10 ^ (-401 : Int) := by positivity
    rw [Nat.cast_zero, zero_mul] at hleast
    linarith
  have hhigh : ¬ 400 < exponent := by
    intro hgt
    have hten : (10 : ℚ) ^ (401 : Int) ≤ 10 ^ exponent := zpow_le_zpow_right₀ (by norm_num) hgt
    have hone : (1 : ℚ) ≤ digits := by exact_mod_cast Nat.pos_of_ne_zero hdigits
    have := le_mul_of_one_le_left hpower.le hone
    linarith
  have hlow : ¬ exponent + digits.log2 + 1 < -400 := by
    intro hlt
    -- the bound counts binary digits as decimal ones, which only makes it more generous
    have hbits : (digits : ℚ) < 10 ^ (digits.log2 + 1) :=
      calc (digits : ℚ) < 2 ^ (digits.log2 + 1) := by exact_mod_cast Nat.lt_log2_self
        _ ≤ 10 ^ (digits.log2 + 1) := pow_le_pow_left₀ (by norm_num) (by norm_num) _
    have hten : (10 : ℚ) ^ (digits.log2 + 1) * 10 ^ exponent ≤ 10 ^ (-401 : Int) := by
      rw [← zpow_natCast, ← zpow_add₀ (by norm_num)]
      exact zpow_le_zpow_right₀ (by norm_num) (by omega)
    have := mul_lt_mul_of_pos_right hbits hpower
    linarith
  have hvalue : ((digits * 10 ^ exponent.toNat : Nat) : ℚ) / (10 ^ (-exponent).toNat : Nat) =
      digits * 10 ^ exponent := by
    have hten := zpow_toNat (b := (10 : ℚ)) (by norm_num) exponent
    push_cast
    rw [div_eq_iff (by positivity), ← hten]
    ring
  rw [ofDecimal, if_neg hdigits, if_neg hhigh, if_neg hlow]
  exact ofRatio_eq (Nat.mul_pos (Nat.pos_of_ne_zero hdigits) (Nat.pow_pos (by decide)))
    (Nat.pow_pos (by decide)) (hvalue ▸ h) negative

end

end MessageCatalog.Double
