/-
Numbers in base 64 are read back as they were written, and a number of 32 bits, with its sign, is
never too long for the check of mappings.
-/
import MessageCatalog.SourceMap.Decode
import MessageCatalog.SourceMap.Vlq
import Mathlib.Tactic.Ring

namespace MessageCatalog.Vlq

/-! ## Digits -/

theorem digitValue?_digitChar : ∀ n < 64, digitValue? (digitChar n) = some n := by decide +kernel

theorem digitChar_ne_separator : ∀ n < 64, digitChar n ≠ ';' ∧ digitChar n ≠ ',' := by
  decide +kernel

/-! ## Numbers -/

theorem unfold_fold (n : Int) : unfold (fold n) = n := by
  unfold fold unfold
  split
  · rw [if_pos (by omega)]
    omega
  · rw [if_neg (by omega)]
    omega

theorem encodeNat_ne_nil (n : Nat) : encodeNat n ≠ [] := by
  rw [encodeNat]
  split <;> exact List.cons_ne_nil _ _

theorem encode_ne_nil (n : Int) : encode n ≠ [] := encodeNat_ne_nil (fold n)

/-- Every character of a number is a digit. -/
theorem mem_encodeNat {n : Nat} {c : Char} (h : c ∈ encodeNat n) : ∃ d < 64, c = digitChar d := by
  induction n using encodeNat.induct with
  | case1 n hn =>
    rw [encodeNat, dif_pos hn] at h
    exact ⟨n, by omega, List.mem_singleton.1 h⟩
  | case2 n hn ih =>
    rw [encodeNat, dif_neg hn] at h
    rcases List.mem_cons.1 h with rfl | h
    · exact ⟨n % 32 + 32, by omega, rfl⟩
    · exact ih h

theorem separator_not_mem_encode (n : Int) : ';' ∉ encode n ∧ ',' ∉ encode n := by
  constructor
  · intro h
    obtain ⟨d, hd, he⟩ := mem_encodeNat h
    exact (digitChar_ne_separator d hd).1 he.symm
  · intro h
    obtain ⟨d, hd, he⟩ := mem_encodeNat h
    exact (digitChar_ne_separator d hd).2 he.symm

/-- In the middle of a number its digits add their weight to what has been read. -/
theorem decodeFrom_encodeNat (n value weight : Nat) (rest : List Char) :
    decodeFrom value weight (encodeNat n ++ rest) =
      (decodeFrom 0 1 rest).map (unfold (value + n * weight) :: ·) := by
  induction n using encodeNat.induct generalizing value weight with
  | case1 n hn =>
    rw [encodeNat, dif_pos hn, List.singleton_append, decodeFrom,
      digitValue?_digitChar n (by omega)]
    simp only [if_pos hn, Nat.mod_eq_of_lt hn]
  | case2 n hn ih =>
    have hd : n % 32 + 32 < 64 := by omega
    have hvalue : value + (n % 32 + 32) % 32 * weight + n / 32 * (weight * 32) =
        value + n * weight := by
      have hsplit : (n % 32 + n / 32 * 32) * weight = n * weight := by
        rw [show n % 32 + n / 32 * 32 = n by omega]
      rw [show (n % 32 + 32) % 32 = n % 32 by omega, ← hsplit]
      ring
    rw [encodeNat, dif_neg hn, List.cons_append, decodeFrom, digitValue?_digitChar _ hd]
    simp only [if_neg (show ¬ n % 32 + 32 < 32 by omega)]
    rw [ih, hvalue]

theorem decodeFrom_encode (n : Int) (rest : List Char) :
    decodeFrom 0 1 (encode n ++ rest) = (decodeFrom 0 1 rest).map (n :: ·) := by
  rw [encode, decodeFrom_encodeNat, Nat.zero_add, Nat.mul_one, unfold_fold]

/-- Numbers that stand one after the other are read back. -/
theorem decode?_encode (ns : List Int) : decode? (ns.flatMap encode) = some ns := by
  unfold decode?
  induction ns with
  | nil => rfl
  | cons n ns ih => rw [List.flatMap_cons, decodeFrom_encode, ih]; rfl

end MessageCatalog.Vlq

namespace MessageCatalog

/-! ## The check of the text -/

theorem checkMappings_digit {d : Nat} (h : d < 64) (run : Nat) (rest : List Char) :
    checkMappings run (Vlq.digitChar d :: rest) =
      if d < 32 then checkMappings 0 rest
      else if maxContinued ≤ run then .error .numberOutOfRange
      else checkMappings (run + 1) rest := by
  obtain ⟨hs, hc⟩ := Vlq.digitChar_ne_separator d h
  rw [checkMappings, if_neg (not_or.2 ⟨hs, hc⟩), Vlq.digitValue?_digitChar d h]

theorem checkMappings_separator {c : Char} (h : c = ';' ∨ c = ',') (rest : List Char) :
    checkMappings 0 (c :: rest) = checkMappings 0 rest := by
  rw [checkMappings, if_pos h, if_pos rfl]

/-- A number of `k` digits and one is let through where `k` digits may still be continued. -/
theorem checkMappings_encodeNat {n k : Nat} (hn : n < 32 ^ (k + 1)) {run : Nat}
    (hrun : run + k ≤ maxContinued) (rest : List Char) :
    checkMappings run (Vlq.encodeNat n ++ rest) = checkMappings 0 rest := by
  induction k generalizing n run with
  | zero =>
    have hn : n < 32 := by simpa using hn
    rw [Vlq.encodeNat, dif_pos hn, List.singleton_append, checkMappings_digit (by omega),
      if_pos hn]
  | succ k ih =>
    by_cases hsmall : n < 32
    · rw [Vlq.encodeNat, dif_pos hsmall, List.singleton_append, checkMappings_digit (by omega),
        if_pos hsmall]
    · have hdiv : n / 32 < 32 ^ (k + 1) := by
        rw [Nat.div_lt_iff_lt_mul (by decide)]
        rw [Nat.pow_succ] at hn
        exact hn
      rw [Vlq.encodeNat, dif_neg hsmall, List.cons_append, checkMappings_digit (by omega),
        if_neg (by omega), if_neg (by omega)]
      exact ih hdiv (by omega)

/-- Positions and indices below this bound are words of 32 bits. -/
def wordLimit : Nat := 4294967296

theorem word_natCast {n : Nat} (h : n < wordLimit) : word n = n := by
  unfold wordLimit at h
  unfold word
  omega

theorem checkMappings_difference {a b : Nat} (ha : a < wordLimit) (hb : b < wordLimit)
    (rest : List Char) :
    checkMappings 0 (Vlq.encode ((a : Int) - b) ++ rest) = checkMappings 0 rest := by
  unfold wordLimit at ha hb
  refine checkMappings_encodeNat (k := 6) ?_ (Nat.le_refl _) rest
  rw [show 32 ^ (6 + 1) = 34359738368 from rfl]
  unfold Vlq.fold
  split <;> omega

end MessageCatalog
