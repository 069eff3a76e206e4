/-
The grammar of mappings. A text passes the check exactly if it is made of segments of numbers, each
number with a few continued digits and a last one; so the decoder finds whole numbers in every segment
that it cuts the text into, none wider than the difference of two positions needs.
-/
import MessageCatalog.Proofs.SourceMap.Lookup

namespace MessageCatalog

/-! ## The grammar -/

/-- Between segments stands a comma, or a semicolon that also ends the line. -/
def isSeparator (c : Char) : Bool := c = ';' || c = ','

/-- A digit with the continuation bit. -/
def IsContinued (c : Char) : Prop := ∃ d, Vlq.digitValue? c = some d ∧ 32 ≤ d

/-- A digit without the continuation bit. -/
def IsLast (c : Char) : Prop := ∃ d, Vlq.digitValue? c = some d ∧ d < 32

/-- At most six digits that are continued, and one that is not. -/
def IsNumber (cs : List Char) : Prop :=
  ∃ continued last, cs = continued ++ [last] ∧ continued.length ≤ 6 ∧
    (∀ c ∈ continued, IsContinued c) ∧ IsLast last

/-- Numbers one behind the other, or none. -/
def IsSegment (cs : List Char) : Prop :=
  ∃ numbers : List (List Char), cs = numbers.flatten ∧ ∀ number ∈ numbers, IsNumber number

def IsMappings (text : List Char) : Prop := ∀ segment ∈ text.splitOnP isSeparator, IsSegment segment

section

variable {c : Char} {cs rest : List Char}

/-! ## Digits and separators -/

theorem separator_no_digit (h : isSeparator c = true) : Vlq.digitValue? c = none := by
  rcases Bool.or_eq_true_iff.1 h with h | h <;> rw [of_decide_eq_true h] <;> decide

theorem not_isSeparator {d : Nat} (h : Vlq.digitValue? c = some d) : isSeparator c = false := by
  cases hc : isSeparator c with
  | false => rfl
  | true =>
    rw [separator_no_digit hc] at h
    cases h

theorem IsNumber.no_separator (h : IsNumber cs) : ∀ c ∈ cs, isSeparator c = false := by
  obtain ⟨continued, last, rfl, -, hcontinued, d, hd, -⟩ := h
  refine List.forall_mem_append.2 ⟨fun c hc => ?_, List.forall_mem_singleton.2 (not_isSeparator hd)⟩
  obtain ⟨d, hd, -⟩ := hcontinued c hc
  exact not_isSeparator hd

/-! ## Splitting -/

/-- A text without separators goes in front of the first segment. -/
theorem splitOnP_append_front (h : ∀ c ∈ cs, isSeparator c = false) (rest : List Char) :
    (cs ++ rest).splitOnP isSeparator = (rest.splitOnP isSeparator).modifyHead (cs ++ ·) := by
  induction cs with
  | nil => cases hrest : rest.splitOnP isSeparator <;> simp [hrest]
  | cons c cs ih =>
    obtain ⟨hc, hcs⟩ := List.forall_mem_cons.1 h
    rw [List.cons_append, List.splitOnP_cons_eq_if_modifyHead, hc, ih hcs]
    cases rest.splitOnP isSeparator <;> rfl

theorem splitOnP_separator (h : isSeparator c = true) (rest : List Char) :
    (c :: rest).splitOnP isSeparator = [] :: rest.splitOnP isSeparator := by
  rw [List.splitOnP_cons_eq_if_modifyHead, if_pos h]

/-- The lines of a text, each cut at its commas, are its segments. -/
theorem segments_eq (text : List Char) :
    (text.splitOn ';').flatMap (·.splitOn ',') = text.splitOnP isSeparator := by
  induction text with
  | nil => rfl
  | cons c rest ih =>
    obtain ⟨line, lines, hlines⟩ := List.exists_cons_of_ne_nil (List.splitOn_ne_nil ';' rest)
    obtain ⟨first, others, hline⟩ := List.exists_cons_of_ne_nil (List.splitOn_ne_nil ',' line)
    rw [hlines, List.flatMap_cons, hline, List.cons_append] at ih
    by_cases hsemicolon : c = ';'
    · subst hsemicolon
      rw [splitOn_cons_self, splitOnP_separator rfl, ← ih, hlines, List.flatMap_cons,
        List.flatMap_cons, hline]
      rfl
    · have hsplit : (c :: rest).splitOn ';' = (c :: line) :: lines := by
        rw [List.splitOn_cons_eq_if_modifyHead, if_neg (by simpa using hsemicolon), hlines]
        rfl
      rw [hsplit, List.flatMap_cons]
      by_cases hcomma : c = ','
      · subst hcomma
        rw [splitOn_cons_self, splitOnP_separator rfl, ← ih, hline]
        rfl
      · have hc : isSeparator c = false := by simp [isSeparator, hsemicolon, hcomma]
        rw [List.splitOn_cons_eq_if_modifyHead, if_neg (by simpa using hcomma), hline,
          List.splitOnP_cons_eq_if_modifyHead, hc, ← ih]
        rfl

/-! ## Building texts of the grammar -/

theorem isMappings_nil : IsMappings [] := by
  intro segment hsegment
  rw [List.splitOnP_nil, List.mem_singleton] at hsegment
  exact ⟨[], hsegment, nofun⟩

theorem IsMappings.separator (hc : isSeparator c = true) (h : IsMappings rest) :
    IsMappings (c :: rest) := by
  rw [IsMappings, splitOnP_separator hc]
  exact List.forall_mem_cons.2 ⟨⟨[], rfl, nofun⟩, h⟩

/-- A number in front belongs to the first segment. -/
theorem IsMappings.number (hcs : IsNumber cs) (h : IsMappings rest) : IsMappings (cs ++ rest) := by
  rw [IsMappings, splitOnP_append_front hcs.no_separator]
  obtain ⟨first, others, hsplit⟩ :=
    List.exists_cons_of_ne_nil (List.splitOnP_ne_nil isSeparator rest)
  rw [IsMappings, hsplit] at h
  obtain ⟨⟨numbers, hfirst, hnumbers⟩, hothers⟩ := List.forall_mem_cons.1 h
  rw [hsplit]
  refine List.forall_mem_cons.2 ⟨⟨cs :: numbers, ?_, List.forall_mem_cons.2 ⟨hcs, hnumbers⟩⟩, hothers⟩
  rw [List.flatten_cons, hfirst]

/-! ## The check -/

theorem checkMappings_value {d : Nat} (h : Vlq.digitValue? c = some d) (run : Nat)
    (rest : List Char) :
    checkMappings run (c :: rest) =
      if d < 32 then checkMappings 0 rest
      else if maxContinued ≤ run then .error .numberOutOfRange
      else checkMappings (run + 1) rest := by
  have hc := not_isSeparator h
  simp only [isSeparator, Bool.or_eq_false_iff, decide_eq_false_iff_not] at hc
  rw [checkMappings, if_neg (not_or.2 hc), h]

/-- Behind `run` continued digits there is room for a number that goes on with at most the others. -/
theorem checkMappings_continued {continued : List Char} {last : Char}
    (hcontinued : ∀ c ∈ continued, IsContinued c) (hlast : IsLast last) {run : Nat}
    (hrun : run + continued.length ≤ 6) (rest : List Char) :
    checkMappings run (continued ++ last :: rest) = checkMappings 0 rest := by
  induction continued generalizing run with
  | nil =>
    obtain ⟨d, hd, hlt⟩ := hlast
    rw [List.nil_append, checkMappings_value hd, if_pos hlt]
  | cons c continued ih =>
    obtain ⟨⟨d, hd, hge⟩, hcontinued⟩ := List.forall_mem_cons.1 hcontinued
    rw [List.length_cons] at hrun
    rw [List.cons_append, checkMappings_value hd, if_neg (Nat.not_lt.2 hge),
      if_neg (show ¬ maxContinued ≤ run by unfold maxContinued; omega)]
    exact ih hcontinued (by omega)

theorem checkMappings_number (h : IsNumber cs) (rest : List Char) :
    checkMappings 0 (cs ++ rest) = checkMappings 0 rest := by
  obtain ⟨continued, last, rfl, hlength, hcontinued, hlast⟩ := h
  rw [List.append_assoc, List.singleton_append]
  exact checkMappings_continued hcontinued hlast (by omega) rest

theorem checkMappings_numbers (h : IsSegment cs) (rest : List Char) :
    checkMappings 0 (cs ++ rest) = checkMappings 0 rest := by
  obtain ⟨numbers, rfl, hnumbers⟩ := h
  induction numbers with
  | nil => rfl
  | cons number numbers ih =>
    obtain ⟨hnumber, hnumbers⟩ := List.forall_mem_cons.1 hnumbers
    rw [List.flatten_cons, List.append_assoc, checkMappings_number hnumber, ih hnumbers]

/-- A text is one segment, or a first one with a separator behind it. -/
theorem first_segment (text : List Char) :
    (∀ c ∈ text, isSeparator c = false) ∨ ∃ first c rest, text = first ++ c :: rest ∧
      (∀ c ∈ first, isSeparator c = false) ∧ isSeparator c = true := by
  induction text with
  | nil => exact .inl nofun
  | cons c text ih =>
    cases hc : isSeparator c with
    | true => exact .inr ⟨[], c, text, rfl, nofun, hc⟩
    | false =>
      rcases ih with hnone | ⟨first, separator, rest, rfl, hfirst, hseparator⟩
      · exact .inl (List.forall_mem_cons.2 ⟨hc, hnone⟩)
      · exact .inr ⟨c :: first, separator, rest, rfl, List.forall_mem_cons.2 ⟨hc, hfirst⟩,
          hseparator⟩

theorem IsMappings.checked (text : List Char) (h : IsMappings text) :
    checkMappings 0 text = .ok () := by
  rcases first_segment text with hnone | ⟨first, c, rest, htext, hfirst, hc⟩
  · rw [IsMappings, List.splitOnP_eq_singleton fun c hc => by simp [hnone c hc],
      List.forall_mem_singleton] at h
    exact List.append_nil text ▸ checkMappings_numbers h []
  · rw [IsMappings, htext, splitOnP_append_front hfirst, splitOnP_separator hc] at h
    obtain ⟨hsegment, hrest⟩ := List.forall_mem_cons.1 h
    simp only [List.append_nil] at hsegment
    have hor : c = ';' ∨ c = ',' := by simpa [isSeparator] using hc
    rw [htext, checkMappings_numbers hsegment, checkMappings_separator hor]
    exact IsMappings.checked rest hrest
termination_by text.length
decreasing_by
  rw [htext, List.length_append, List.length_cons]
  omega

/-- What passes the check behind some continued digits is a text of the grammar together with them. -/
theorem isMappings_of_checked {text : List Char} (front : List Char) (hlength : front.length ≤ 6)
    (hfront : ∀ c ∈ front, IsContinued c) (h : checkMappings front.length text = .ok ()) :
    IsMappings (front ++ text) := by
  induction text generalizing front with
  | nil =>
    rw [checkMappings] at h
    split at h
    · rename_i hzero
      rw [List.eq_nil_of_length_eq_zero hzero]
      exact isMappings_nil
    · cases h
  | cons c text ih =>
    cases hd : Vlq.digitValue? c with
    | none =>
      rw [checkMappings, hd] at h
      split at h
      · rename_i hc
        split at h
        · rename_i hzero
          rw [List.eq_nil_of_length_eq_zero hzero]
          have hrest := ih [] (Nat.zero_le 6) (List.forall_mem_nil _) h
          exact hrest.separator (by simpa [isSeparator] using hc)
        · cases h
      · cases h
    | some d =>
      rw [checkMappings_value hd] at h
      split at h
      · rename_i hlt
        have hnumber : IsNumber (front ++ [c]) := ⟨front, c, rfl, hlength, hfront, d, hd, hlt⟩
        have hrest := ih [] (Nat.zero_le 6) (List.forall_mem_nil _) h
        rw [← List.singleton_append, ← List.append_assoc]
        exact hrest.number hnumber
      · rename_i hge
        split at h
        · cases h
        · rename_i hroom
          unfold maxContinued at hroom
          have hmore : (front ++ [c]).length = front.length + 1 := List.length_append
          rw [← List.singleton_append, ← List.append_assoc]
          exact ih _ (by omega) (List.forall_mem_append.2 ⟨hfront,
            List.forall_mem_singleton.2 ⟨d, hd, Nat.not_lt.1 hge⟩⟩) (hmore ▸ h)

/-! ## The numbers of a segment -/

/-- With one digit more a value stays below the weight of the next one. -/
theorem value_add_digit_lt {value weight : Nat} (h : value < weight) (d : Nat) :
    value + d % 32 * weight < weight * 32 := by
  have hdigit : d % 32 * weight ≤ 31 * weight := Nat.mul_le_mul_right weight (by omega)
  omega

/-- Digits of a number add up to less than their weight, and the number ends with the last one. -/
theorem decodeFrom_continued {continued : List Char} {last : Char}
    (hcontinued : ∀ c ∈ continued, IsContinued c) (hlast : IsLast last) {value weight : Nat}
    (hvalue : value < weight) : ∃ total < weight * 32 ^ (continued.length + 1), ∀ rest,
      Vlq.decodeFrom value weight (continued ++ last :: rest) =
        (Vlq.decodeFrom 0 1 rest).map (Vlq.unfold total :: ·) := by
  induction continued generalizing value weight with
  | nil =>
    obtain ⟨d, hd, hlt⟩ := hlast
    refine ⟨value + d % 32 * weight, value_add_digit_lt hvalue d, fun rest => ?_⟩
    rw [List.nil_append, Vlq.decodeFrom, hd]
    exact if_pos hlt
  | cons c continued ih =>
    obtain ⟨⟨d, hd, hge⟩, hcontinued⟩ := List.forall_mem_cons.1 hcontinued
    obtain ⟨total, htotal, hdecode⟩ := ih hcontinued (value_add_digit_lt hvalue d)
    refine ⟨total, ?_, fun rest => ?_⟩
    · rwa [Nat.mul_assoc, ← Nat.pow_succ'] at htotal
    · rw [List.cons_append, Vlq.decodeFrom, hd]
      simp only [if_neg (Nat.not_lt.2 hge)]
      exact hdecode rest

/-- A number of the grammar is read as one number of limited magnitude, whatever stands behind it. -/
theorem IsNumber.decodes (h : IsNumber cs) : ∃ n : Int, n.natAbs < 2 ^ 34 ∧ ∀ rest,
    Vlq.decodeFrom 0 1 (cs ++ rest) = (Vlq.decodeFrom 0 1 rest).map (n :: ·) := by
  obtain ⟨continued, last, rfl, hlength, hcontinued, hlast⟩ := h
  obtain ⟨total, htotal, hdecode⟩ := decodeFrom_continued hcontinued hlast Nat.zero_lt_one
  refine ⟨Vlq.unfold total, ?_, fun rest => ?_⟩
  · have hpow : 32 ^ (continued.length + 1) ≤ 32 ^ 7 := Nat.pow_le_pow_right (by decide) (by omega)
    rw [Nat.one_mul] at htotal
    unfold Vlq.unfold
    split <;> omega
  · rw [List.append_assoc, List.singleton_append, hdecode]

/-- The texts of the numbers of a segment, with the numbers that they are read as. -/
def SplitsInto (segment : List Char) (numbers : List (List Char × Int)) : Prop :=
  segment = numbers.flatMap Prod.fst ∧ Vlq.decode? segment = some (numbers.map Prod.snd) ∧
    ∀ number ∈ numbers, IsNumber number.1 ∧ Vlq.decode? number.1 = some [number.2]

theorem IsSegment.splits (h : IsSegment cs) :
    ∃ numbers, SplitsInto cs numbers ∧ ∀ number ∈ numbers, number.2.natAbs < 2 ^ 34 := by
  obtain ⟨texts, rfl, htexts⟩ := h
  induction texts with
  | nil => exact ⟨[], ⟨rfl, rfl, nofun⟩, nofun⟩
  | cons text texts ih =>
    obtain ⟨htext, htexts⟩ := List.forall_mem_cons.1 htexts
    obtain ⟨n, hn, hdecode⟩ := htext.decodes
    obtain ⟨numbers, ⟨hflat, hall, hnumbers⟩, hlt⟩ := ih htexts
    have hone : Vlq.decode? text = some [n] := by
      have := hdecode []
      rwa [List.append_nil] at this
    refine ⟨(text, n) :: numbers, ⟨?_, ?_, List.forall_mem_cons.2 ⟨⟨htext, hone⟩, hnumbers⟩⟩,
      List.forall_mem_cons.2 ⟨hn, hlt⟩⟩
    · rw [List.flatten_cons, List.flatMap_cons, hflat]
    · rw [List.flatten_cons, Vlq.decode?, hdecode]
      rw [Vlq.decode?] at hall
      rw [hall]
      rfl

end

/-- The text of mappings is let through exactly if it is one of the grammar. -/
theorem checkMappings_iff (text : List Char) : checkMappings 0 text = .ok () ↔ IsMappings text :=
  ⟨isMappings_of_checked [] (Nat.zero_le 6) (List.forall_mem_nil _), IsMappings.checked text⟩

/--
The check accepts the texts of the grammar and no others. Every segment that an accepted text is cut
into, line by line, splits into numbers without a rest, and they are below `2 ^ 34`. What a map decodes
to refers to its own sources and names only.
-/
theorem check_admits_grammar (text : List Char) (map : SourceMap) :
    (checkMappings 0 text = .ok () ↔ IsMappings text) ∧
    (checkMappings 0 text = .ok () → ∀ segment ∈ (text.splitOn ';').flatMap (·.splitOn ','),
      ∃ numbers, SplitsInto segment numbers ∧ ∀ number ∈ numbers, number.2.natAbs < 2 ^ 34) ∧
    ∀ segments, map.decode = .ok segments → ∀ s ∈ segments, ∀ o ∈ s.origin,
      o.source < map.sources.length ∧ ∀ n ∈ o.name, n < map.names.length := by
  refine ⟨checkMappings_iff text, fun h segment hsegment => ?_, fun segments h s hs o ho => ?_⟩
  · rw [segments_eq] at hsegment
    exact ((checkMappings_iff text).1 h segment hsegment).splits
  · have horigin := (decode_decoded h s hs).origin o ho
    exact ⟨horigin.source, fun n hn => (horigin.name n hn).1⟩

end MessageCatalog
