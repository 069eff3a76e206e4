/-
Numbers are local: a number that was read without a fault is read from its own digits, its fraction
and its exponent, whatever follows them.
-/
import MessageCatalog.Proofs.Script.LocalText

namespace MessageCatalog.Script

open MessageCatalog.Text

section

variable {w u r : List Char}

/-! ## Digits -/

/-- Digits that are read at all are read past the first one. -/
theorem readDigits_tail {isDigit : Char → Bool} {fuel : Nat} {c : Char} {cs : List Char}
    (hc : isDigit c = true) : (readDigits isDigit (fuel + 1) (c :: cs)).2.1 <:+ cs := by
  have hsuffix := readDigits_suffix isDigit fuel cs
  unfold readDigits
  grind [readDigits_suffix]

theorem readDigits_local {isDigit : Char → Bool} {fuel fuel' : Nat} {digits : List Char}
    (h : readDigits isDigit fuel (w ++ r) = (digits, u ++ r, none)) (hfuel : (w ++ r).length < fuel)
    (hfuel' : w.length < fuel') : readDigits isDigit fuel' w = (digits, u, none) := by
  generalize hcs : w ++ r = cs at h hfuel
  fun_induction readDigits isDigit fuel cs generalizing w digits fuel' with
  | case1 => exact absurd hfuel (Nat.not_lt_zero _)
  | case2 =>
    rename_i fuel c tail hc ih
    have hone : 1 ≤ fuel := by simp only [List.length_cons] at hfuel; omega
    obtain ⟨m, rfl⟩ := Nat.exists_eq_add_of_le' hone
    have hbehind : (readDigits isDigit (m + 1) (c :: tail)).2.1 <:+ tail := readDigits_tail hc
    rw [h] at hbehind
    obtain ⟨v, rfl, rfl⟩ := exists_cut ['_', c] hcs ((List.suffix_append u r).trans hbehind)
    simp only [List.length_append, List.length_cons, List.length_nil] at hfuel hfuel'
    obtain ⟨n, rfl⟩ := Nat.exists_eq_add_of_le' (show 1 ≤ fuel' by omega)
    have hrest := ih (show (c :: v).length < n by rw [List.length_cons]; omega) rfl h
      (by rw [List.length_cons, List.length_append]; omega)
    show readDigits isDigit (n + 1) ('_' :: c :: v) = _
    rw [readDigits]
    simp [hc, hrest]
  | case3 => simp at h
  | case4 => simp at h
  | case5 =>
    rename_i fuel c body hc hdigit digits tail fault htail ih
    simp only [Prod.mk.injEq] at h
    obtain ⟨rfl, rfl, rfl⟩ := h
    have hbehind := readDigits_suffix isDigit fuel body
    rw [htail] at hbehind
    obtain ⟨v, rfl, rfl⟩ := exists_cut_cons hcs ((List.suffix_append u r).trans hbehind)
    simp only [List.length_append, List.length_cons] at hfuel hfuel'
    obtain ⟨n, rfl⟩ := Nat.exists_eq_add_of_le' (show 1 ≤ fuel' by omega)
    have hrest := ih (by omega : v.length < n) rfl htail (by rw [List.length_append]; omega)
    rw [readDigits]
    · simp [hdigit, hrest]
    · exact hc
  | case6 =>
    rename_i fuel c body hc hdigit
    simp only [Prod.mk.injEq, and_true] at h
    obtain ⟨rfl, hrest⟩ := h
    rw [← hcs] at hrest
    obtain rfl := List.append_cancel_right hrest
    obtain ⟨n, rfl⟩ := Nat.exists_eq_add_of_le' (Nat.succ_le_of_lt (Nat.zero_lt_of_lt hfuel'))
    cases w with
    | nil => rfl
    | cons c' v =>
      obtain ⟨rfl, rfl⟩ := List.cons.inj hcs
      rw [readDigits]
      · rw [if_neg hdigit]
      · exact hc
  | case7 =>
    obtain ⟨rfl, rfl⟩ := List.append_eq_nil_iff.1 hcs
    obtain ⟨n, rfl⟩ := Nat.exists_eq_add_of_le' (Nat.succ_le_of_lt (Nat.zero_lt_of_lt hfuel'))
    rw [List.append_nil] at h
    simpa [readDigits] using h

/-- Digits that start with one are read alike without what follows them. -/
theorem readDigits_front_local {isDigit : Char → Bool} {c : Char} {tail digits : List Char}
    (hc : isDigit c = true)
    (h : readDigits isDigit ((c :: tail).length + 1) (c :: tail) = (digits, u ++ r, none)) :
    ∃ v, tail = v ++ r ∧ readDigits isDigit ((c :: v).length + 1) (c :: v) = (digits, u, none) := by
  have htail : (readDigits isDigit ((c :: tail).length + 1) (c :: tail)).2.1 <:+ tail := readDigits_tail hc
  rw [h] at htail
  obtain ⟨v, rfl⟩ := (List.suffix_append u r).trans htail
  exact ⟨v, rfl, readDigits_local (w := c :: v) h (Nat.lt_succ_self _) (Nat.lt_succ_self _)⟩

/-! ## The end of a number -/

theorem misplaced_eq_nil {offset : OffsetOf} {fault : Option (List Char)} (h : misplaced offset fault = []) :
    fault = none := by
  cases fault with
  | none => rfl
  | some rest => cases h

theorem finishNumber_eq {offset : OffsetOf} {kind kind' : TokenKind} {cs rest : List Char} {faults : List Nat}
    (h : finishNumber offset kind cs faults = ⟨kind', rest, []⟩) :
    kind' = kind ∧ rest = cs ∧ faults = [] := by
  unfold finishNumber at h
  split at h
  · split at h
    · simp at h
    · cases h
      exact ⟨rfl, rfl, rfl⟩
  · cases h
    exact ⟨rfl, rfl, rfl⟩

/-- A number ends where it did in front of more text. -/
theorem finishNumber_local {offset : OffsetOf} (offset' : OffsetOf) {kind kind' : TokenKind}
    {cs : List Char} {faults : List Nat}
    (h : finishNumber offset kind cs faults = ⟨kind', u ++ r, []⟩) :
    kind' = kind ∧ cs = u ++ r ∧ faults = [] ∧ finishNumber offset' kind u [] = ⟨kind, u, []⟩ := by
  obtain ⟨rfl, rfl, rfl⟩ := finishNumber_eq h
  refine ⟨rfl, rfl, rfl, ?_⟩
  cases u with
  | nil => rfl
  | cons c u =>
    unfold finishNumber at h ⊢
    simp only [List.cons_append] at h ⊢
    split at h
    · simp at h
    · rename_i hc
      rw [if_neg hc]

/-! ## Exponents and fractions -/

/-- Where a number has an exponent, and where it has none. -/
theorem readExponent_absent {offset offset' : OffsetOf} (h : readExponent offset (w ++ r) = none) :
    readExponent offset' w = none := by
  cases w with
  | nil => rfl
  | cons c w =>
    unfold readExponent at h ⊢
    dsimp only [List.cons_append] at h ⊢
    split at h
    · split at h
      · split at h <;> cases h
      · cases h
    · rename_i hmark
      rw [if_neg hmark]

theorem splitSign_local {negative : Bool} {body : List Char}
    (h : Double.splitSign (w ++ r) = (negative, body))
    (hbody : r <:+ body) : ∃ v, Double.splitSign w = (negative, v) ∧ body = v ++ r := by
  unfold Double.splitSign at h
  split at h
  · rename_i rest hsign
    cases h
    obtain ⟨v, rfl, rfl⟩ := exists_cut_cons hsign hbody
    exact ⟨v, rfl, rfl⟩
  · rename_i rest hsign
    cases h
    obtain ⟨v, rfl, rfl⟩ := exists_cut_cons hsign hbody
    exact ⟨v, rfl, rfl⟩
  · rename_i hplus hminus
    cases h
    refine ⟨w, ?_, rfl⟩
    unfold Double.splitSign
    split
    · exact absurd rfl (hplus _)
    · exact absurd rfl (hminus _)
    · rfl

theorem readExponent_local {offset offset' : OffsetOf} {n : Int}
    (h : readExponent offset (w ++ r) = some (n, u ++ r, [])) :
    readExponent offset' w = some (n, u, []) := by
  unfold readExponent at h
  split at h
  · rename_i c rest hcs
    split at h
    · rename_i hmark
      cases hsign : Double.splitSign rest with
      | mk negative body =>
      simp only [hsign] at h
      split at h
      · rename_i d tail
        split at h
        · rename_i hd
          cases hread : readDigits isAsciiDigit ((d :: tail).length + 1) (d :: tail) with
          | mk digits behind =>
          obtain ⟨rest', fault⟩ := behind
          simp only [hread, Option.some.injEq, Prod.mk.injEq] at h
          obtain ⟨hn, rfl, hfaults⟩ := h
          rw [misplaced_eq_nil hfaults] at hread
          obtain ⟨v'', rfl, hdigits⟩ := readDigits_front_local hd hread
          have hrest : d :: (v'' ++ r) <:+ rest := by
            have := splitSign_suffix rest
            rwa [hsign] at this
          have hbehind : r <:+ d :: (v'' ++ r) := List.suffix_append (d :: v'') r
          obtain ⟨v, rfl, rfl⟩ := exists_cut_cons hcs (hbehind.trans hrest)
          obtain ⟨v', hv', hbody⟩ := splitSign_local hsign hbehind
          obtain rfl : d :: v'' = v' := List.append_cancel_right hbody
          simp only [readExponent, hmark, if_true, hv', hd, hdigits, misplaced, hn]
        · simp at h
      · simp at h
    · cases h
  · cases h

/-- The fraction of a number, if there is one: its digits, the rest, and the faults. -/
def readFraction (offset : OffsetOf) (faults : List Nat) (cs : List Char) :
    List Char × List Char × List Nat :=
  match cs with
  | '.' :: tail =>
    match tail with
    | d :: _ =>
      if isAsciiDigit d then
        let (digits, rest, fault) := readDigits isAsciiDigit (tail.length + 1) tail
        (digits, rest, faults ++ misplaced offset fault)
      else ([], tail, faults)
    | [] => ([], [], faults)
  | _ => ([], cs, faults)

/-- What stands behind the fraction of a number. -/
def readPower (offset : OffsetOf) (whole fraction rest : List Char) (faults : List Nat) : Cut :=
  match readExponent offset rest with
  | some (exponent, rest, more) =>
    finishNumber offset (.number (.ofParts false whole fraction exponent)) rest (faults ++ more)
  | none => finishNumber offset (.number (.ofParts false whole fraction 0)) rest faults

theorem readDecimalTail_eq (offset : OffsetOf) (whole cs : List Char) (faults : List Nat) :
    readDecimalTail offset whole cs faults = readPower offset whole (readFraction offset faults cs).1
      (readFraction offset faults cs).2.1 (readFraction offset faults cs).2.2 := rfl

theorem readPower_local {offset : OffsetOf} (offset' : OffsetOf) {whole fraction rest : List Char}
    {d : Double}
    {faults : List Nat} (h : readPower offset whole fraction rest faults = ⟨.number d, u ++ r, []⟩) :
    faults = [] ∧ ∃ v, rest = v ++ r ∧ readPower offset' whole fraction v [] = ⟨.number d, u, []⟩ := by
  unfold readPower at h
  split at h
  · rename_i n rest' more hread
    obtain ⟨hkind, rfl, hfaults, hfinish⟩ := finishNumber_local offset' h
    obtain ⟨rfl, rfl⟩ := List.append_eq_nil_iff.1 hfaults
    obtain ⟨v, rfl⟩ := (List.suffix_append u r).trans (readExponent_suffix hread)
    refine ⟨rfl, v, rfl, ?_⟩
    simp only [readPower, readExponent_local hread, hkind]
    exact hfinish
  · rename_i hread
    obtain ⟨hkind, rfl, rfl, hfinish⟩ := finishNumber_local offset' h
    refine ⟨rfl, u, rfl, ?_⟩
    simp only [readPower, readExponent_absent hread, hkind]
    exact hfinish

theorem readFraction_local {offset : OffsetOf} (offset' : OffsetOf) {fraction : List Char} {faults : List Nat}
    (h : readFraction offset faults (w ++ r) = (fraction, u ++ r, [])) :
    faults = [] ∧ readFraction offset' [] w = (fraction, u, []) := by
  unfold readFraction at h
  split at h
  · rename_i tail hcs
    split at h
    · rename_i d digits
      split at h
      · rename_i hd
        cases hread : readDigits isAsciiDigit ((d :: digits).length + 1) (d :: digits) with
        | mk taken behind =>
        obtain ⟨rest, fault⟩ := behind
        simp only [hread, Prod.mk.injEq, List.append_eq_nil_iff] at h
        obtain ⟨rfl, rfl, rfl, hfault⟩ := h
        rw [misplaced_eq_nil hfault] at hread
        obtain ⟨v, rfl, hdigits⟩ := readDigits_front_local hd hread
        obtain ⟨v', rfl, hv'⟩ := exists_cut ['.', d] hcs (List.suffix_append v r)
        obtain rfl := List.append_cancel_right hv'
        refine ⟨rfl, ?_⟩
        show readFraction offset' [] ('.' :: d :: v) = _
        simp only [readFraction, hd, if_true, hdigits]
        rfl
      · rename_i hd
        simp only [Prod.mk.injEq] at h
        obtain ⟨rfl, hrest, rfl⟩ := h
        obtain ⟨v, rfl, hv⟩ := exists_cut_cons hcs (hrest ▸ List.suffix_append u r)
        rw [hrest] at hv
        obtain rfl := List.append_cancel_right hv
        refine ⟨rfl, ?_⟩
        cases u with
        | nil => rfl
        | cons c u =>
          obtain ⟨rfl, -⟩ := List.cons.inj hrest
          simp only [readFraction, if_neg hd]
    · simp only [Prod.mk.injEq] at h
      obtain ⟨rfl, hrest, rfl⟩ := h
      obtain ⟨rfl, rfl⟩ := List.append_eq_nil_iff.1 hrest.symm
      rw [List.append_nil] at hcs
      subst hcs
      exact ⟨rfl, rfl⟩
  · rename_i hpoint
    simp only [Prod.mk.injEq] at h
    obtain ⟨rfl, hrest, rfl⟩ := h
    obtain rfl := List.append_cancel_right hrest
    refine ⟨rfl, ?_⟩
    unfold readFraction
    split
    · exact absurd rfl (hpoint _)
    · rfl

theorem readDecimalTail_local {offset : OffsetOf} (offset' : OffsetOf) {whole : List Char}
    {d : Double} {faults : List Nat}
    (h : readDecimalTail offset whole (w ++ r) faults = ⟨.number d, u ++ r, []⟩) :
    faults = [] ∧ readDecimalTail offset' whole w [] = ⟨.number d, u, []⟩ := by
  rw [readDecimalTail_eq] at h
  obtain ⟨hfaults, v, hrest, hpower⟩ := readPower_local offset' h
  have hread : readFraction offset faults (w ++ r) =
      ((readFraction offset faults (w ++ r)).1, v ++ r, []) := by
    rw [← hrest, ← hfaults]
  obtain ⟨rfl, hfraction⟩ := readFraction_local offset' hread
  refine ⟨rfl, ?_⟩
  rw [readDecimalTail_eq, hfraction]
  exact hpower

/-! ## Numbers -/

theorem readBased_local {offset offset' : OffsetOf} {base : Nat} {isDigit : Char → Bool} {d : Double}
    (h : readBased offset base isDigit (w ++ r) = ⟨.number d, u ++ r, []⟩) :
    readBased offset' base isDigit w = ⟨.number d, u, []⟩ := by
  unfold readBased at h
  split at h
  · rename_i c tail hcs
    split at h
    · rename_i hc
      cases hread : readDigits isDigit ((w ++ r).length + 1) (w ++ r) with
      | mk digits behind =>
      obtain ⟨rest, fault⟩ := behind
      simp only [hread] at h
      have htail : rest <:+ tail := by
        have hsuffix : (readDigits isDigit ((w ++ r).length + 1) (c :: tail)).2.1 <:+ tail :=
          readDigits_tail hc
        rwa [← hcs, hread] at hsuffix
      split at h
      · obtain ⟨hkind, -⟩ := finishNumber_eq h
        cases hkind
      · rename_i hbigint
        obtain ⟨hkind, rfl, hfaults, hfinish⟩ := finishNumber_local offset' h
        rw [misplaced_eq_nil hfaults] at hread
        have hdigits : readDigits isDigit (w.length + 1) w = (digits, u, none) :=
          readDigits_local hread (Nat.lt_succ_self _) (Nat.lt_succ_self _)
        obtain ⟨v, rfl, -⟩ := exists_cut_cons hcs ((List.suffix_append u r).trans htail)
        unfold readBased
        simp only [hc, if_true, hdigits]
        split
        · exact absurd rfl (hbigint _)
        · rw [hkind]
          exact hfinish
    · simp at h
  · simp at h

/-- A number behind a zero that has no letter of a base behind it. -/
def readAfterZero (offset : OffsetOf) (rest : List Char) : Cut :=
  let digits := rest.takeWhile isAsciiDigit
  let tail := rest.dropWhile isAsciiDigit
  if digits = [] then readDecimalTail offset ['0'] tail []
  else if digits.all isOctalDigit then
    finishNumber offset (.number (baseValue 8 64 digits)) tail []
  else readDecimalTail offset digits tail []

theorem readAfterZero_suffix (offset : OffsetOf) (rest : List Char) :
    (readAfterZero offset rest).rest <:+ rest.dropWhile isAsciiDigit := by
  unfold readAfterZero
  grind [readDecimalTail_suffix, finishNumber_suffix]

theorem readAfterZero_local {offset offset' : OffsetOf} {d : Double}
    (h : readAfterZero offset (w ++ r) = ⟨.number d, u ++ r, []⟩) :
    readAfterZero offset' w = ⟨.number d, u, []⟩ := by
  have htail := readAfterZero_suffix offset (w ++ r)
  rw [h] at htail
  obtain ⟨htake, hdrop⟩ := takeWhile_local ((List.suffix_append u r).trans htail)
  unfold readAfterZero at h ⊢
  dsimp only at h
  rw [htake, hdrop] at h
  split at h
  · rename_i hnone
    rw [if_pos hnone]
    exact (readDecimalTail_local offset' h).2
  · rename_i hsome
    rw [if_neg hsome]
    split at h
    · rename_i hoctal
      obtain ⟨hkind, hrest, -, hfinish⟩ := finishNumber_local offset' h
      rw [if_pos hoctal, List.append_cancel_right hrest, hkind]
      exact hfinish
    · rename_i hoctal
      rw [if_neg hoctal]
      exact (readDecimalTail_local offset' h).2

/-- A number that starts with no zero. -/
def readDecimal (offset : OffsetOf) (cs : List Char) : Cut :=
  let (digits, rest, fault) := readDigits isAsciiDigit (cs.length + 1) cs
  let faults := misplaced offset fault
  match rest with
  | 'n' :: rest => finishNumber offset .bigint rest faults
  | _ => readDecimalTail offset digits rest faults

theorem readDecimal_local {offset offset' : OffsetOf} {d : Double}
    (h : readDecimal offset (w ++ r) = ⟨.number d, u ++ r, []⟩) :
    readDecimal offset' w = ⟨.number d, u, []⟩ := by
  unfold readDecimal at h
  cases hread : readDigits isAsciiDigit ((w ++ r).length + 1) (w ++ r) with
  | mk digits behind =>
  obtain ⟨rest, fault⟩ := behind
  simp only [hread] at h
  split at h
  · obtain ⟨hkind, -⟩ := finishNumber_eq h
    cases hkind
  · rename_i hbigint
    have htail := readDecimalTail_suffix offset digits rest (misplaced offset fault)
    rw [h] at htail
    obtain ⟨v, rfl⟩ := (List.suffix_append u r).trans htail
    obtain ⟨hfaults, hdecimal⟩ := readDecimalTail_local offset' h
    rw [misplaced_eq_nil hfaults] at hread
    have hdigits : readDigits isAsciiDigit (w.length + 1) w = (digits, v, none) :=
      readDigits_local hread (Nat.lt_succ_self _) (Nat.lt_succ_self _)
    simp only [readDecimal, hdigits]
    split
    · exact absurd rfl (hbigint _)
    · exact hdecimal

theorem readNumber_local {offset offset' : OffsetOf} {c : Char} {d : Double}
    (h : readNumber offset (c :: (w ++ r)) = ⟨.number d, u ++ r, []⟩) :
    readNumber offset' (c :: w) = ⟨.number d, u, []⟩ := by
  have hbased : ∀ {base : Nat} {isDigit : Char → Bool} {mark : Char} {rest : List Char},
      w ++ r = mark :: rest → readBased offset base isDigit rest = ⟨.number d, u ++ r, []⟩ →
      ∃ v, w = mark :: v ∧ readBased offset' base isDigit v = ⟨.number d, u, []⟩ := by
    intro base isDigit mark rest hw h
    have hsuffix := readBased_suffix offset base isDigit rest
    rw [h] at hsuffix
    obtain ⟨v, rfl, rfl⟩ := exists_cut_cons hw ((List.suffix_append u r).trans hsuffix)
    exact ⟨v, rfl, readBased_local h⟩
  unfold readNumber at h
  split at h
  case h_1 | h_2 | h_3 | h_4 | h_5 | h_6 =>
    rename_i rest heq
    obtain ⟨rfl, hw⟩ := List.cons.inj heq
    obtain ⟨v, rfl, hv⟩ := hbased hw h
    exact hv
  case h_7 =>
    obtain ⟨hkind, -⟩ := finishNumber_eq h
    cases hkind
  case h_8 =>
    rename_i rest hx hX ho hO hb hB hn heq
    obtain ⟨rfl, rfl⟩ := List.cons.inj heq
    rw [readNumber]
    · exact readAfterZero_local h
    all_goals
      rintro rest rfl
    · exact hx _ rfl
    · exact hX _ rfl
    · exact ho _ rfl
    · exact hO _ rfl
    · exact hb _ rfl
    · exact hB _ rfl
    · exact hn _ rfl
  case h_9 =>
    rename_i hzero
    rw [readNumber]
    · exact readDecimal_local (w := c :: w) h
    all_goals
      intro rest heq
      exact hzero (w ++ r) (by rw [(List.cons.inj heq).1])

theorem readDecimalTail_tail (offset : OffsetOf) {d : Char} (hd : isAsciiDigit d = true)
    (whole cs : List Char) (faults : List Nat) :
    (readDecimalTail offset whole ('.' :: d :: cs) faults).rest <:+ cs := by
  have hfraction : (readFraction offset faults ('.' :: d :: cs)).2.1 <:+ cs := by
    have hdigits : ∀ fuel, (readDigits isAsciiDigit (fuel + 1) (d :: cs)).2.1 <:+ cs :=
      fun fuel => readDigits_tail hd
    simp only [readFraction, hd, if_true]
    exact hdigits _
  have hpower : ∀ fraction rest faults, (readPower offset whole fraction rest faults).rest <:+ rest := by
    intro fraction rest faults
    unfold readPower
    grind [finishNumber_suffix]
  rw [readDecimalTail_eq]
  exact (hpower _ _ _).trans hfraction

theorem readNumber_tail (offset : OffsetOf) {c : Char} {cs : List Char} (hc : isAsciiDigit c = true) :
    (readNumber offset (c :: cs)).rest <:+ cs := by
  have hdigits : ∀ fuel, (readDigits isAsciiDigit (fuel + 1) (c :: cs)).2.1 <:+ cs :=
    fun fuel => readDigits_tail hc
  unfold readNumber
  grind [readBased_suffix, readDecimalTail_suffix, finishNumber_suffix, List.dropWhile_suffix]

/-- A number that is no fault is a double, or it is too large to be one. -/
def Cut.IsNumber (cut : Cut) : Prop :=
  cut.faults = [] → cut.kind = .bigint ∨ ∃ d, cut.kind = .number d

theorem finishNumber_isNumber {offset : OffsetOf} {kind : TokenKind} {rest : List Char} {faults : List Nat}
    (h : kind = .bigint ∨ ∃ d, kind = .number d) : (finishNumber offset kind rest faults).IsNumber := by
  intro hfaults
  have hcut : finishNumber offset kind rest faults =
      ⟨(finishNumber offset kind rest faults).kind, (finishNumber offset kind rest faults).rest, []⟩ := by
    rw [← hfaults]
  rwa [(finishNumber_eq hcut).1]

theorem readDecimalTail_isNumber (offset : OffsetOf) (whole cs : List Char) (faults : List Nat) :
    (readDecimalTail offset whole cs faults).IsNumber := by
  rw [readDecimalTail_eq, readPower]
  split
  · exact finishNumber_isNumber (.inr ⟨_, rfl⟩)
  · exact finishNumber_isNumber (.inr ⟨_, rfl⟩)

theorem readBased_isNumber (offset : OffsetOf) (base : Nat) (isDigit : Char → Bool) (cs : List Char) :
    (readBased offset base isDigit cs).IsNumber := by
  unfold readBased
  dsimp only
  split
  · split
    · split
      · exact finishNumber_isNumber (.inl rfl)
      · exact finishNumber_isNumber (.inr ⟨_, rfl⟩)
    · nofun
  · nofun

theorem readNumber_isNumber (offset : OffsetOf) (cs : List Char) : (readNumber offset cs).IsNumber := by
  have hbigint : ∀ rest faults, (finishNumber offset .bigint rest faults).IsNumber :=
    fun _ _ => finishNumber_isNumber (.inl rfl)
  have hnumber : ∀ d rest faults, (finishNumber offset (.number d) rest faults).IsNumber :=
    fun _ _ _ => finishNumber_isNumber (.inr ⟨_, rfl⟩)
  unfold readNumber
  grind [readBased_isNumber, readDecimalTail_isNumber]

end

end MessageCatalog.Script
