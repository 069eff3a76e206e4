/-
Tokens are local: a token of data is the same wherever its text stands and whatever follows it, and
so is the text that blanks and comments lead to.
-/
import MessageCatalog.Proofs.Script.Facing
import MessageCatalog.Proofs.Script.LocalNumber

namespace MessageCatalog.Script

open MessageCatalog.Text

section

variable {w u r : List Char}

/-! ## Blanks and comments -/

theorem skipBlockComment_local {newLine newLine' : Bool} (other : Bool)
    (h : skipBlockComment newLine (w ++ r) = some (newLine', u ++ r)) :
    ∃ newLine'', skipBlockComment other w = some (newLine'', u) := by
  generalize hcs : w ++ r = cs at h
  fun_induction skipBlockComment newLine cs generalizing w other with
  | case1 => cases h
  | case2 newLine rest =>
    obtain ⟨rfl, rfl⟩ := Prod.mk.inj (Option.some.inj h)
    obtain ⟨v, rfl, hv⟩ := exists_cut ['*', '/'] hcs (List.suffix_append u r)
    cases List.append_cancel_right hv
    exact ⟨other, rfl⟩
  | case3 newLine c rest hno ih =>
    have hrest := (List.suffix_append u r).trans (skipBlockComment_suffix h)
    obtain ⟨v, rfl, rfl⟩ := exists_cut_cons hcs hrest
    rw [skipBlockComment]
    · exact ih _ rfl h
    · rintro tail rfl rfl
      exact hno _ rfl rfl

/-- A character that opens no comment: a line end or a blank is skipped, any other one is the token's. -/
theorem skipTrivia_cons {c : Char} {rest : List Char} (hslash : ∀ tail, c = '/' → rest = '/' :: tail → False)
    (hstar : ∀ tail, c = '/' → rest = '*' :: tail → False) (newLine : Bool) (fuel : Nat) :
    skipTrivia newLine (fuel + 1) (c :: rest) =
      if isLineEnd c then skipTrivia true fuel rest
      else if isScriptBlank c then skipTrivia newLine fuel rest
      else .skipped newLine (c :: rest) := by
  rw [skipTrivia]
  · exact hslash
  · exact hstar

/-- What follows a character that opens no comment has no part in that. -/
theorem opens_local {c d : Char} (h : ∀ tail, c = '/' → w ++ r = d :: tail → False) :
    ∀ tail, c = '/' → w = d :: tail → False := by
  rintro tail hc rfl
  exact h (tail ++ r) hc rfl

/-- What is behind the text that blanks and comments lead to is behind them too. -/
theorem skipTrivia_behind {newLine newLine' : Bool} {fuel : Nat} {cs : List Char}
    (h : skipTrivia newLine fuel cs = .skipped newLine' (u ++ r)) : r <:+ cs := by
  have hsuffix := skipTrivia_suffix newLine fuel cs
  rw [h] at hsuffix
  exact (List.suffix_append u r).trans hsuffix

/-- The text behind blanks and comments, for any fuel that is enough and with any flag. -/
theorem skipTrivia_local {newLine newLine' : Bool} {fuel fuel' : Nat} (other : Bool)
    (h : skipTrivia newLine fuel (w ++ r) = .skipped newLine' (u ++ r)) (hfuel : (w ++ r).length < fuel)
    (hfuel' : w.length < fuel') : ∃ newLine'', skipTrivia other fuel' w = .skipped newLine'' u := by
  generalize hcs : w ++ r = cs at h hfuel
  fun_induction skipTrivia newLine fuel cs generalizing w fuel' other with
  | case1 => exact absurd hfuel (Nat.not_lt_zero _)
  | case2 =>
    rename_i newLine fuel comment ih
    have hbehind : r <:+ comment.dropWhile (!isLineEnd ·) := skipTrivia_behind h
    obtain ⟨v, rfl, rfl⟩ := exists_cut ['/', '/'] hcs (hbehind.trans (List.dropWhile_suffix _))
    obtain ⟨-, hdrop⟩ := takeWhile_local hbehind
    have hlength := (List.dropWhile_suffix (!isLineEnd ·) (l := v)).length_le
    simp only [List.length_append, List.length_cons, List.length_nil] at hfuel hfuel'
    obtain ⟨n, rfl⟩ := Nat.exists_eq_add_of_le' (show 1 ≤ fuel' by omega)
    obtain ⟨newLine₁, hrest⟩ := ih other (show (v.dropWhile (!isLineEnd ·)).length < n by omega)
      hdrop.symm h (by rw [hdrop, List.length_append]; omega)
    refine ⟨newLine₁, ?_⟩
    show skipTrivia other (n + 1) ('/' :: '/' :: v) = _
    simp only [skipTrivia, hrest]
  | case3 =>
    rename_i newLine fuel comment newLine₁ rest hcomment ih
    obtain ⟨v', rfl⟩ := skipTrivia_behind h
    obtain ⟨v, rfl, rfl⟩ := exists_cut ['/', '*'] hcs
      ((List.suffix_append v' r).trans (skipBlockComment_suffix hcomment))
    obtain ⟨newLine₂, hcomment'⟩ := skipBlockComment_local other hcomment
    have hlength := (skipBlockComment_suffix hcomment').length_le
    have hlength' := (skipBlockComment_suffix hcomment).length_le
    simp only [List.length_append, List.length_cons, List.length_nil] at hfuel hfuel' hlength'
    obtain ⟨n, rfl⟩ := Nat.exists_eq_add_of_le' (show 1 ≤ fuel' by omega)
    obtain ⟨newLine₃, hrest⟩ := ih newLine₂ (show v'.length < n by omega) rfl h
      (by rw [List.length_append]; omega)
    refine ⟨newLine₃, ?_⟩
    show skipTrivia other (n + 1) ('/' :: '*' :: v) = _
    simp only [skipTrivia, hcomment', hrest]
  | case4 => cases h
  | case5 =>
    rename_i newLine fuel c rest hslash hstar hline ih
    obtain ⟨v, rfl, rfl⟩ := exists_cut_cons hcs (skipTrivia_behind h)
    simp only [List.length_append, List.length_cons] at hfuel hfuel'
    obtain ⟨n, rfl⟩ := Nat.exists_eq_add_of_le' (show 1 ≤ fuel' by omega)
    obtain ⟨newLine₁, hrest⟩ := ih true (show v.length < n by omega) rfl h
      (by rw [List.length_append]; omega)
    refine ⟨newLine₁, ?_⟩
    rw [skipTrivia_cons (opens_local hslash) (opens_local hstar), if_pos hline, hrest]
  | case6 =>
    rename_i newLine fuel c rest hslash hstar hline hblank ih
    obtain ⟨v, rfl, rfl⟩ := exists_cut_cons hcs (skipTrivia_behind h)
    simp only [List.length_append, List.length_cons] at hfuel hfuel'
    obtain ⟨n, rfl⟩ := Nat.exists_eq_add_of_le' (show 1 ≤ fuel' by omega)
    obtain ⟨newLine₁, hrest⟩ := ih other (show v.length < n by omega) rfl h
      (by rw [List.length_append]; omega)
    refine ⟨newLine₁, ?_⟩
    rw [skipTrivia_cons (opens_local hslash) (opens_local hstar), if_neg hline, if_pos hblank, hrest]
  | case7 =>
    rename_i newLine fuel c rest hslash hstar hline hblank
    obtain ⟨-, hrest⟩ := Trivia.skipped.inj h
    rw [← hcs] at hrest
    obtain rfl := List.append_cancel_right hrest
    obtain ⟨n, rfl⟩ := Nat.exists_eq_add_of_le' (Nat.succ_le_of_lt (Nat.zero_lt_of_lt hfuel'))
    refine ⟨other, ?_⟩
    cases w with
    | nil => rfl
    | cons c' v =>
      obtain ⟨rfl, rfl⟩ := List.cons.inj hcs
      rw [skipTrivia_cons (opens_local hslash) (opens_local hstar), if_neg hline, if_neg hblank]
  | case8 =>
    obtain ⟨rfl, rfl⟩ := List.append_eq_nil_iff.1 hcs
    obtain ⟨n, rfl⟩ := Nat.exists_eq_add_of_le' (Nat.succ_le_of_lt (Nat.zero_lt_of_lt hfuel'))
    obtain ⟨-, hu⟩ := Trivia.skipped.inj h
    obtain rfl : u = [] := by simpa using hu.symm
    exact ⟨other, rfl⟩

/-- What a text leads to is what it leads to in front of more text. -/
theorem Leads.local (h : Leads (w ++ r) (u ++ r)) : Leads w u := by
  obtain ⟨newLine, hskip⟩ := h false _ (Nat.lt_succ_self _)
  exact fun other fuel hfuel => skipTrivia_local other hskip (Nat.lt_succ_self _) hfuel

/-- One skip of blanks and comments leads to the same text as any other. -/
theorem leads_of_skipped {cs text : List Char} {newLine newLine' : Bool}
    (h : skipTrivia newLine (cs.length + 1) cs = .skipped newLine' text) : Leads cs text := by
  rw [← List.append_nil cs, ← List.append_nil text] at h
  exact fun other fuel hfuel => skipTrivia_local other h (by simp) hfuel

/-- A text that blanks and comments led to starts with none. -/
theorem skipTrivia_again {newLine newLine' : Bool} {fuel : Nat} {cs text : List Char}
    (h : skipTrivia newLine fuel cs = .skipped newLine' text) (hfuel : cs.length < fuel) (n : Nat) :
    skipTrivia newLine' (n + 1) text = .skipped newLine' text := by
  fun_induction skipTrivia newLine fuel cs with
  | case1 => exact absurd hfuel (Nat.not_lt_zero _)
  | case2 newLine fuel comment ih =>
    have hlength := (List.dropWhile_suffix (!isLineEnd ·) (l := comment)).length_le
    simp only [List.length_cons] at hfuel
    exact ih h (by omega)
  | case3 newLine fuel comment newLine₁ rest hcomment ih =>
    have hlength := (skipBlockComment_suffix hcomment).length_le
    simp only [List.length_cons] at hfuel
    exact ih h (by omega)
  | case4 => cases h
  | case5 newLine fuel c rest hslash hstar hline ih => exact ih h (Nat.lt_of_succ_lt_succ hfuel)
  | case6 newLine fuel c rest hslash hstar hline hblank ih => exact ih h (Nat.lt_of_succ_lt_succ hfuel)
  | case7 newLine fuel c rest hslash hstar hline hblank =>
    obtain ⟨rfl, rfl⟩ := Trivia.skipped.inj h
    rw [skipTrivia_cons hslash hstar, if_neg hline, if_neg hblank]
  | case8 =>
    obtain ⟨-, rfl⟩ := Trivia.skipped.inj h
    rfl

theorem Leads.self {cs text : List Char} (h : Leads cs text) : Leads text text := by
  obtain ⟨newLine, hskip⟩ := h false _ (Nat.lt_succ_self _)
  exact leads_of_skipped (skipTrivia_again hskip (Nat.lt_succ_self _) text.length)

/-! ## The front of a token -/

theorem punctuator?_length {cs : List Char} {p : String} (h : punctuator? cs = some p) : 1 ≤ p.length := by
  have hall : ∀ p ∈ punctuators, 1 ≤ p.length := by decide
  unfold punctuator? at h
  split at h
  · split at h <;> (cases h; decide)
  · exact hall p (List.mem_of_find?_eq_some h)

theorem drop_tail {n : Nat} (hn : 1 ≤ n) (c : Char) (cs : List Char) : (c :: cs).drop n <:+ cs := by
  obtain ⟨m, rfl⟩ := Nat.exists_eq_add_of_le' hn
  exact List.drop_suffix m cs

/-- A token of any kind takes at least one character. -/
theorem cutToken_tail (offset : OffsetOf) (atStart : Bool) (c : Char) (cs : List Char) :
    (cutToken offset atStart (c :: cs)).rest <:+ cs := by
  unfold cutToken
  grind [cutString_suffix, cutTemplate_suffix, readName_suffix, readName_tail, readDecimalTail_tail,
    readNumber_tail, List.dropWhile_suffix, drop_tail, punctuator?_length]

/-! ## Tokens of data -/

/-- The kinds of token that data is made of. -/
def isDataKind : TokenKind → Bool
  | .name _ | .number _ | .string _ => true
  | .punctuator p => ["\x7b", "\x7d", "[", "]", ",", ":", "+", "-"].contains p
  | _ => false

/-- A punctuator of data is one character, which is found in the list. -/
theorem punctuator?_found {cs : List Char} {p : String} (hp : isDataKind (.punctuator p) = true)
    (h : punctuator? cs = some p) :
    punctuators.find? (fun p => p.toList.isPrefixOf cs) = some p ∧ ∃ c, p = String.ofList [c] ∧ c ≠ '.' := by
  constructor
  · unfold punctuator? at h
    split at h
    · split at h <;> (cases h; exact absurd hp (by decide))
    · exact h
  · simp only [isDataKind, List.contains_iff_mem, List.mem_cons, List.not_mem_nil, or_false] at hp
    rcases hp with rfl | rfl | rfl | rfl | rfl | rfl | rfl | rfl <;> exact ⟨_, rfl, by decide⟩

theorem punctuator?_front {c : Char} {cs : List Char} {p : String} (hp : isDataKind (.punctuator p) = true)
    (h : punctuator? (c :: cs) = some p) : p = String.ofList [c] ∧ c ≠ '.' := by
  obtain ⟨hfound, c', rfl, hpoint⟩ := punctuator?_found hp h
  have hfront := List.find?_some hfound
  rw [String.toList_ofList, List.isPrefixOf_cons_cons, Bool.and_eq_true, beq_iff_eq] at hfront
  obtain ⟨rfl, -⟩ := hfront
  exact ⟨rfl, hpoint⟩

theorem punctuator?_local {c : Char} {p : String} (hp : isDataKind (.punctuator p) = true)
    (h : punctuator? (c :: (w ++ r)) = some p) : punctuator? (c :: w) = some p := by
  obtain ⟨hfound, -⟩ := punctuator?_found hp h
  obtain ⟨-, before, behind, hlist, hbefore⟩ := List.find?_eq_some_iff_append.1 hfound
  obtain ⟨rfl, -⟩ := punctuator?_front hp h
  have hfound' : punctuators.find? (fun p => p.toList.isPrefixOf (c :: w)) = some (String.ofList [c]) := by
    rw [List.find?_eq_some_iff_append]
    refine ⟨?_, before, behind, hlist, fun q hq => ?_⟩
    · rw [String.toList_ofList]
      simp
    · have hno := hbefore q hq
      rw [Bool.not_eq_true', ← Bool.not_eq_true, List.isPrefixOf_iff_prefix] at hno ⊢
      exact fun h => hno (h.trans (List.prefix_append (c :: w) r))
  unfold punctuator?
  rw [hfound']
  split
  · rename_i heq
    rw [Option.some.inj heq] at hp
    exact absurd hp (by decide)
  · rfl

theorem cutTemplate_noData (start : Nat) (body : List Char) :
    isDataKind (cutTemplate start body).kind = false := by
  unfold cutTemplate
  split
  · dsimp only
    split <;> rfl
  · rfl

theorem cutToken_front {offset : OffsetOf} {atStart : Bool} {kind : TokenKind}
    (hkind : isDataKind kind = true) (h : cutToken offset atStart (w ++ r) = ⟨kind, u ++ r, []⟩) :
    ∃ c v, w = c :: v := by
  cases w with
  | cons c w => exact ⟨c, w, rfl⟩
  | nil =>
    exfalso
    cases r with
    | nil =>
      obtain rfl : TokenKind.endOfText = kind := congrArg Cut.kind h
      exact Bool.false_ne_true hkind
    | cons c r =>
      have hlength := (cutToken_tail offset atStart c r).length_le
      rw [List.nil_append] at h
      rw [h, List.length_append, List.length_cons] at hlength
      omega

/-- A number that is a token of data is a double. -/
theorem Cut.IsNumber.of_data {kind : TokenKind} {rest : List Char} (h : (Cut.mk kind rest []).IsNumber)
    (hkind : isDataKind kind = true) : ∃ d, kind = .number d := by
  obtain hbigint | hnumber := h rfl
  · dsimp only at hbigint
    rw [hbigint] at hkind
    cases hkind
  · exact hnumber

theorem cutPunctuator_local {c : Char} {p : String} {kind : TokenKind} (hkind : isDataKind kind = true)
    (hread : punctuator? (c :: (w ++ r)) = some p)
    (hcut : Cut.mk (.punctuator p) ((c :: (w ++ r)).drop p.length) [] = ⟨kind, u ++ r, []⟩) :
    c ≠ '.' ∧ punctuator? (c :: w) = some p ∧
      Cut.mk (.punctuator p) ((c :: w).drop p.length) [] = ⟨kind, u, []⟩ := by
  simp only [Cut.mk.injEq, and_true] at hcut
  obtain ⟨rfl, hrest⟩ := hcut
  obtain ⟨hp, hpoint⟩ := punctuator?_front hkind hread
  have hlength : p.length = 1 := by rw [hp, String.length_ofList]; rfl
  rw [hlength] at hrest ⊢
  refine ⟨hpoint, punctuator?_local hkind hread, ?_⟩
  rw [← List.append_cancel_right hrest]
  rfl

/-- A number that starts with its point. -/
theorem cutToken_point_local {offset offset' : OffsetOf} {atStart' : Bool} {kind : TokenKind} {d : Char}
    {tail : List Char} (hkind : isDataKind kind = true) (hd : isAsciiDigit d = true) (hw : w ++ r = d :: tail)
    (h : readDecimalTail offset [] ('.' :: d :: tail) [] = ⟨kind, u ++ r, []⟩) :
    cutToken offset' atStart' ('.' :: w) = ⟨kind, u, []⟩ := by
  have htail := readDecimalTail_tail offset hd [] tail []
  rw [h] at htail
  obtain ⟨v, rfl, rfl⟩ := exists_cut_cons hw ((List.suffix_append u r).trans htail)
  have hnumber := readDecimalTail_isNumber offset [] ('.' :: d :: (v ++ r)) []
  rw [h] at hnumber
  obtain ⟨n, rfl⟩ := hnumber.of_data hkind
  rw [cutToken, if_pos hd]
  exact (readDecimalTail_local offset' (w := '.' :: d :: v) h).2

/-- A token of data is the same without what follows it, and wherever it stands. -/
theorem cutToken_local {offset offset' : OffsetOf} {atStart atStart' : Bool} {kind : TokenKind}
    (hkind : isDataKind kind = true) (h : cutToken offset atStart (w ++ r) = ⟨kind, u ++ r, []⟩) :
    cutToken offset' atStart' w = ⟨kind, u, []⟩ := by
  obtain ⟨c, w, rfl⟩ := cutToken_front hkind h
  have hknown : kind ≠ .unknown := by
    rintro rfl
    exact Bool.false_ne_true hkind
  rw [List.cons_append] at h
  unfold cutToken at h
  dsimp only at h
  split at h
  case h_1 heq => cases heq
  case h_2 heq =>
    obtain ⟨rfl, rfl⟩ := List.cons.inj heq
    exact cutString_local hknown h
  case h_3 heq =>
    obtain ⟨rfl, rfl⟩ := List.cons.inj heq
    exact cutString_local hknown h
  case h_4 body heq =>
    have hdata := cutTemplate_noData (offset (c :: (w ++ r))) body
    rw [h, hkind] at hdata
    cases hdata
  case h_5 heq =>
    exfalso
    repeat' split at h
    all_goals
      obtain rfl := congrArg Cut.kind h
      exact Bool.false_ne_true hkind
  case h_6 d tail heq =>
    obtain ⟨rfl, hw⟩ := List.cons.inj heq
    split at h
    · rename_i hd
      rw [hw] at h
      exact cutToken_point_local hkind hd hw h
    · split at h
      · rename_i hread
        exact absurd rfl (cutPunctuator_local hkind hread h).1
      · exact absurd (congrArg Cut.kind h).symm hknown
  case h_7 hquote hapostrophe htick hhash hpoint heq =>
    obtain ⟨rfl, rfl⟩ := List.cons.inj heq
    rw [cutToken]
    · split at h
      · rename_i hdigit
        rw [if_pos hdigit]
        have hnumber := readNumber_isNumber offset (c :: (w ++ r))
        rw [h] at hnumber
        obtain ⟨n, rfl⟩ := hnumber.of_data hkind
        exact readNumber_local h
      · rename_i hdigit
        rw [if_neg hdigit]
        split at h
        · rename_i hname
          rw [if_pos hname]
          split at h
          · rename_i text rest hread
            simp only [Cut.mk.injEq, and_true] at h
            obtain ⟨rfl, rfl⟩ := h
            rw [readName_local hread (Nat.lt_succ_self _) (Nat.lt_succ_self _)]
          · exact absurd (congrArg Cut.kind h).symm hknown
        · rename_i hname
          rw [if_neg hname]
          split at h
          · rename_i hread
            obtain ⟨-, hread', hcut⟩ := cutPunctuator_local hkind hread h
            rw [hread']
            exact hcut
          · exact absurd (congrArg Cut.kind h).symm hknown
    · exact hquote
    · exact hapostrophe
    · exact htick
    · exact hhash
    · rintro d tail rfl rfl
      exact hpoint d _ rfl rfl

/-! ## Tokens of a text -/

/-- A text starts with a token of a kind, wherever the text stands. -/
def IsToken (text : List Char) (kind : TokenKind) (rest : List Char) : Prop :=
  ∀ offset atStart, cutToken offset atStart text = ⟨kind, rest, []⟩

/-- Behind blanks and comments a text goes on with a token of a kind. -/
def Takes (cs : List Char) (kind : TokenKind) (rest : List Char) : Prop :=
  ∃ text, Leads cs text ∧ IsToken text kind rest

theorem IsToken.suffix {text rest : List Char} {kind : TokenKind} (h : IsToken text kind rest) :
    rest <:+ text := by
  have hsuffix := cutToken_suffix (fun _ => 0) false text
  rwa [h] at hsuffix

theorem IsToken.length_lt {text rest : List Char} {kind : TokenKind} (hkind : kind ≠ .endOfText)
    (h : IsToken text kind rest) : rest.length < text.length := by
  cases text with
  | nil => exact absurd (congrArg Cut.kind (h (fun _ => 0) false)).symm hkind
  | cons c cs =>
    have hlength := (cutToken_tail (fun _ => 0) false c cs).length_le
    rw [h] at hlength
    exact Nat.lt_succ_of_le hlength

theorem IsToken.local {kind : TokenKind} (hkind : isDataKind kind = true)
    (h : IsToken (w ++ r) kind (u ++ r)) :
    IsToken w kind u :=
  fun _ _ => cutToken_local hkind (h (fun _ => 0) false)

/-- A token of data is cut without a fault everywhere as soon as it is cut so once. -/
theorem isToken_of_cut {offset : OffsetOf} {atStart : Bool} {text rest : List Char} {kind : TokenKind}
    (hkind : isDataKind kind = true) (h : cutToken offset atStart text = ⟨kind, rest, []⟩) :
    IsToken text kind rest := by
  rw [← List.append_nil text, ← List.append_nil rest] at h
  exact fun _ _ => cutToken_local hkind h

end

end MessageCatalog.Script
