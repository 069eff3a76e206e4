/-
Reading is local: what is read from a part of a text does not depend on what follows the part, as
long as reading did not go on into it. Here for runs of characters, escapes, names and strings.
-/
import MessageCatalog.Proofs.Script.Tail

namespace MessageCatalog.Script

open MessageCatalog.Text

section

variable {w u r : List Char}

/-! ## Cuts and runs -/

/-- A text is cut in front of what it holds to its end. -/
theorem exists_cut (front : List Char) {rest : List Char} (h : w ++ r = front ++ rest) (hrest : r <:+ rest) :
    ∃ v, w = front ++ v ∧ rest = v ++ r := by
  obtain ⟨v, rfl⟩ := hrest
  rw [← List.append_assoc] at h
  exact ⟨v, List.append_cancel_right h, rfl⟩

theorem exists_cut_cons {c : Char} {rest : List Char} (h : w ++ r = c :: rest) (hrest : r <:+ rest) :
    ∃ v, w = c :: v ∧ rest = v ++ r := exists_cut [c] h hrest

/-- A run that ends inside a part of a text ends there without what follows. -/
theorem takeWhile_local {p : Char → Bool} (h : r <:+ (w ++ r).dropWhile p) :
    (w ++ r).takeWhile p = w.takeWhile p ∧ (w ++ r).dropWhile p = w.dropWhile p ++ r := by
  induction w with
  | nil =>
    have hdrop : r.dropWhile p = r := (h.eq_of_length_le (List.dropWhile_suffix p).length_le).symm
    have htake := r.takeWhile_append_dropWhile (p := p)
    rw [hdrop] at htake
    exact ⟨List.append_left_eq_self.1 htake, hdrop⟩
  | cons a w ih =>
    by_cases ha : p a = true
    · rw [List.cons_append, List.dropWhile_cons_of_pos ha] at h
      obtain ⟨htake, hdrop⟩ := ih h
      rw [List.cons_append, List.dropWhile_cons_of_pos ha, List.dropWhile_cons_of_pos ha,
        List.takeWhile_cons_of_pos ha, List.takeWhile_cons_of_pos ha, htake]
      exact ⟨rfl, hdrop⟩
    · rw [List.cons_append, List.dropWhile_cons_of_neg ha, List.dropWhile_cons_of_neg ha,
        List.takeWhile_cons_of_neg ha, List.takeWhile_cons_of_neg ha]
      exact ⟨rfl, rfl⟩

/-! ## Escapes -/

theorem readHex4?_length {cs rest : List Char} {n : Nat} (h : Json.readHex4? cs = some (n, rest)) :
    cs.length = rest.length + 4 := by
  match cs, h with
  | a :: b :: c :: d :: tail, h =>
    simp only [Json.readHex4?] at h
    split at h
    · cases h
      rfl
    · cases h

theorem readHex4?_local {n : Nat} :
    Json.readHex4? (w ++ r) = some (n, u ++ r) ↔ Json.readHex4? w = some (n, u) := by
  rcases w with _ | ⟨a, _ | ⟨b, _ | ⟨c, _ | ⟨d, tail⟩⟩⟩⟩
  case cons.cons.cons.cons =>
    simp only [List.cons_append, Json.readHex4?]
    split <;> simp
  all_goals
    refine iff_of_false (fun h => ?_) (fun h => by cases h)
    have hlength := readHex4?_length h
    simp only [List.length_append, List.length_cons, List.length_nil] at hlength
    omega

/-- A code point in braces, which ends at its closing brace. -/
theorem readUnicodeEscape_braced_local {us : List CodeUnit} {body : List Char} (hw : w ++ r = '\x7b' :: body)
    (h : readUnicodeEscape ('\x7b' :: body) = ⟨some us, u ++ r⟩) : readUnicodeEscape w = ⟨some us, u⟩ := by
  simp only [readUnicodeEscape] at h
  split at h
  · rename_i rest hrest
    split at h
    · rename_i hdigits
      cases h
      have htail : r <:+ body.dropWhile isHexDigit := by
        rw [hrest]
        exact (List.suffix_append u r).trans (List.suffix_cons _ _)
      obtain ⟨v, rfl, rfl⟩ := exists_cut_cons hw (htail.trans (List.dropWhile_suffix _))
      obtain ⟨htake, hdrop⟩ := takeWhile_local htail
      have hclose : v.dropWhile isHexDigit = '\x7d' :: u := List.append_cancel_right (hdrop.symm.trans hrest)
      rw [htake] at hdigits ⊢
      simp [readUnicodeEscape, hclose, hdigits]
    · cases h
  · cases h

/-- What four digits with the value `n` stand for, together with what is read of the text behind them. -/
inductive FourDigits (n : Nat) : List Char → List CodeUnit → List Char → Prop where
  | unit {rest : List Char} (single : Json.isHighSurrogate n = false) :
    FourDigits n rest [unitOfCode n] rest
  | pair {tail rest : List Char} {m : Nat} (high : Json.isHighSurrogate n = true)
    (digits : Json.readHex4? tail = some (m, rest)) (low : Json.isLowSurrogate m = true) :
    FourDigits n ('\\' :: 'u' :: tail) [.char (Json.joinSurrogates n m)] rest
  | lone {rest : List Char} (high : Json.isHighSurrogate n = true)
    (alone : ∀ {tail m next}, rest = '\\' :: 'u' :: tail → Json.readHex4? tail = some (m, next) →
      Json.isLowSurrogate m = false) :
    FourDigits n rest [.loneSurrogate n] rest

theorem readUnicodeEscape_unbraced {cs rest : List Char} {us : List CodeUnit}
    (hbrace : ∀ body, cs ≠ '\x7b' :: body) :
    readUnicodeEscape cs = ⟨some us, rest⟩ ↔
      ∃ n behind, Json.readHex4? cs = some (n, behind) ∧ FourDigits n behind us rest := by
  rw [readUnicodeEscape.eq_2 cs fun body h => hbrace body h]
  constructor
  · intro h
    cases hread : Json.readHex4? cs with
    | none =>
      rw [hread] at h
      cases h
    | some digits =>
      obtain ⟨n, behind⟩ := digits
      simp only [hread] at h
      refine ⟨n, behind, rfl, ?_⟩
      split at h
      · rename_i hhigh
        split at h
        · rename_i tail
          split at h
          · rename_i m next hm
            split at h
            · rename_i hlow
              cases h
              exact .pair hhigh hm hlow
            · rename_i hlow
              cases h
              refine .lone hhigh fun {_ _ _} htail hm' => ?_
              cases htail
              cases hm.symm.trans hm'
              simpa using hlow
          · rename_i hm
            cases h
            refine .lone hhigh fun {_ _ _} htail hm' => ?_
            cases htail
            cases hm.symm.trans hm'
        · rename_i hother
          cases h
          exact .lone hhigh fun {_ _ _} htail _ => absurd htail (hother _)
      · rename_i hhigh
        cases h
        exact .unit (by simpa using hhigh)
  · rintro ⟨n, behind, hread, h⟩
    rw [hread]
    cases h with
    | unit hsingle => simp [hsingle]
    | pair hhigh hm hlow => simp [hhigh, hm, hlow]
    | lone hhigh halone =>
      simp only [hhigh, if_true]
      split
      · split
        · rename_i hm
          simp [halone rfl hm]
        · rfl
      · rfl

theorem FourDigits.local {n : Nat} {us : List CodeUnit} {behind : List Char}
    (h : FourDigits n behind us (u ++ r)) : ∃ v, behind = v ++ r ∧ FourDigits n v us u := by
  generalize hrest : u ++ r = rest at h
  cases h with
  | unit hsingle => exact ⟨u, hrest.symm, .unit hsingle⟩
  | @pair tail _ m hhigh hm hlow =>
    subst hrest
    obtain ⟨v, rfl⟩ := (List.suffix_append u r).trans (readHex4?_suffix hm)
    exact ⟨_, rfl, .pair hhigh (readHex4?_local.1 hm) hlow⟩
  | lone hhigh halone =>
    subst hrest
    refine ⟨u, rfl, .lone hhigh fun {tail m next} htail hm => ?_⟩
    -- what stands behind a lone surrogate is no low one with more behind it either
    subst htail
    exact halone (List.cons_append ..) (readHex4?_local.2 hm)

theorem readUnicodeEscape_local {us : List CodeUnit}
    (h : readUnicodeEscape (w ++ r) = ⟨some us, u ++ r⟩) : readUnicodeEscape w = ⟨some us, u⟩ := by
  by_cases hbody : ∃ body, w ++ r = '\x7b' :: body
  · obtain ⟨body, hbody⟩ := hbody
    rw [hbody] at h
    exact readUnicodeEscape_braced_local hbody h
  · have hall : ∀ body, w ++ r ≠ '\x7b' :: body := fun body hw => hbody ⟨body, hw⟩
    have hbrace : ∀ body, w ≠ '\x7b' :: body := by
      rintro body rfl
      exact hall _ rfl
    obtain ⟨n, behind, hread, h⟩ := (readUnicodeEscape_unbraced hall).1 h
    obtain ⟨v, rfl, hv⟩ := h.local
    exact (readUnicodeEscape_unbraced hbrace).2 ⟨n, v, readHex4?_local.1 hread, hv⟩

theorem readOctalEscape_local {d : Char} {us : List CodeUnit}
    (h : readOctalEscape d (w ++ r) = ⟨some us, u ++ r⟩) : readOctalEscape d w = ⟨some us, u⟩ := by
  unfold readOctalEscape at h ⊢
  generalize (if d ≤ '3' then 2 else 1) = k at h ⊢
  dsimp only at h ⊢
  obtain ⟨hus, hrest⟩ := EscapeRead.mk.inj h
  have htaken : (((w ++ r).take k).takeWhile isOctalDigit).length ≤ w.length := by
    have hlength := congrArg List.length hrest
    simp only [List.length_drop, List.length_append] at hlength
    have hle := ((List.takeWhile_prefix isOctalDigit).trans (List.take_prefix k (w ++ r))).length_le
    rw [List.length_append] at hle
    omega
  have hmore : ((w ++ r).take k).takeWhile isOctalDigit = (w.take k).takeWhile isOctalDigit := by
    rw [List.take_append, List.takeWhile_append] at htaken ⊢
    split
    · rename_i hall
      rw [if_pos hall, List.length_append, List.length_take] at htaken
      -- no digit is taken from behind the text
      have hnone : (r.take (k - w.length)).takeWhile isOctalDigit = [] := by
        rcases Nat.le_total k w.length with hk | hk
        · rw [Nat.sub_eq_zero_of_le hk]
          rfl
        · exact List.length_eq_zero_iff.1 (by omega)
      rw [hnone, List.append_nil]
      exact ((List.takeWhile_prefix isOctalDigit).eq_of_length hall).symm
    · rfl
  rw [hmore] at hus hrest htaken
  rw [List.drop_append_of_le_length htaken] at hrest
  rw [List.append_cancel_right hrest, hus]

theorem readEscape_tail (template : Bool) (c : Char) (cs : List Char) :
    (readEscape template (c :: cs)).rest <:+ cs := by
  unfold readEscape
  repeat' split
  all_goals grind [List.drop_suffix, readUnicodeEscape_suffix, readOctalEscape_suffix]

theorem escapeRead_local {us us' : List CodeUnit}
    (h : EscapeRead.mk (some us') (w ++ r) = ⟨some us, u ++ r⟩) : us' = us ∧ w = u := by
  obtain ⟨hus, hw⟩ := EscapeRead.mk.inj h
  exact ⟨Option.some.inj hus, List.append_cancel_right hw⟩

theorem readEscape_empty_local {us : List CodeUnit} : readEscape false r ≠ ⟨some us, u ++ r⟩ := by
  intro h
  cases r with
  | nil => cases h
  | cons c r =>
    have hlength := (readEscape_tail false c r).length_le
    rw [h] at hlength
    simp at hlength
    omega

/-- The escape of a character that is no letter of an escape: a zero, octal digits, or itself. -/
def plainEscape (c : Char) (digitNext : Bool) (rest : List Char) : EscapeRead :=
  if c = '0' ∧ ¬ digitNext then ⟨some [.char '\x00'], rest⟩
  else if isOctalDigit c then readOctalEscape c rest
  else ⟨some [.char c], rest⟩

theorem plainEscape_local {c : Char} {digitNext : Bool} {us : List CodeUnit}
    (h : plainEscape c digitNext (w ++ r) = ⟨some us, u ++ r⟩) :
    plainEscape c digitNext w = ⟨some us, u⟩ := by
  unfold plainEscape at h ⊢
  split at h
  · rename_i hzero
    obtain ⟨rfl, rfl⟩ := escapeRead_local h
    rw [if_pos hzero]
  · rename_i hzero
    rw [if_neg hzero]
    split at h
    · rename_i hoctal
      rw [if_pos hoctal]
      exact readOctalEscape_local h
    · rename_i hoctal
      obtain ⟨rfl, rfl⟩ := escapeRead_local h
      rw [if_neg hoctal]

/-- A zero at the end stands for the same character, whatever follows it. -/
theorem plainEscape_nil (c : Char) (digitNext : Bool) :
    plainEscape c digitNext [] = plainEscape c false [] := by
  by_cases hzero : c = '0'
  · subst hzero
    cases digitNext <;> rfl
  · simp [plainEscape, hzero]

theorem readEscape_local {us : List CodeUnit}
    (h : readEscape false (w ++ r) = ⟨some us, u ++ r⟩) : readEscape false w = ⟨some us, u⟩ := by
  cases w with
  | nil => exact absurd h readEscape_empty_local
  | cons c w =>
    rw [List.cons_append] at h
    unfold readEscape at h ⊢
    split at h
    · rename_i heq
      cases heq
    · rename_i rest heq
      obtain ⟨rfl, hw⟩ := List.cons.inj heq
      cases h
      obtain ⟨v, rfl, hv⟩ := exists_cut_cons hw (List.suffix_append u r)
      cases List.append_cancel_right hv
      rfl
    · rename_i c' rest hno heq
      obtain ⟨rfl, rfl⟩ := List.cons.inj heq
      split
      · rename_i heq
        cases heq
      · rename_i heq
        obtain ⟨rfl, rfl⟩ := List.cons.inj heq
        exact absurd rfl (hno _ rfl)
      · rename_i heq
        obtain ⟨rfl, rfl⟩ := List.cons.inj heq
        split at h
        · rename_i hline
          obtain ⟨rfl, rfl⟩ := escapeRead_local h
          rw [if_pos hline]
        · rename_i hline
          rw [if_neg hline]
          split at h
          case h_7 =>
            split at h
            · rename_i a b tail htail
              split at h
              · rename_i hhex
                cases h
                obtain ⟨v, rfl, hv⟩ := exists_cut [a, b] htail (List.suffix_append u r)
                cases List.append_cancel_right hv
                simp [hhex]
              · cases h
            · cases h
          case h_8 => exact readUnicodeEscape_local h
          case h_9 =>
            simp only [Bool.false_eq_true, and_false, if_false] at h ⊢
            change plainEscape c _ (w ++ r) = _ at h
            show plainEscape c _ w = _
            have h := plainEscape_local h
            cases w with
            | cons a w => exact h
            | nil => rwa [plainEscape_nil] at h ⊢
          all_goals
            obtain ⟨rfl, rfl⟩ := escapeRead_local h
            rfl

/-! ## Names -/

theorem readName_behind {first : Bool} {fuel : Nat} {cs : List Char} {text : Option (List Char)}
    (h : readName first fuel cs = (text, u ++ r)) : r <:+ cs := by
  have hsuffix := readName_suffix first fuel cs
  rw [h] at hsuffix
  exact (List.suffix_append u r).trans hsuffix

theorem readName_local {first : Bool} {fuel fuel' : Nat} {text : List Char}
    (h : readName first fuel (w ++ r) = (some text, u ++ r)) (hfuel : (w ++ r).length < fuel)
    (hfuel' : w.length < fuel') : readName first fuel' w = (some text, u) := by
  generalize hcs : w ++ r = cs at h hfuel
  fun_induction readName first fuel cs generalizing w text fuel' with
  | case1 => exact absurd hfuel (Nat.not_lt_zero _)
  | case2 =>
    rename_i first fuel body read c hunits hstart tail rest htail ih
    obtain ⟨htext, rfl⟩ := Prod.mk.inj h
    obtain ⟨text, rfl, rfl⟩ := Option.map_eq_some_iff.1 htext
    have hbehind : r <:+ read.rest := readName_behind htail
    obtain ⟨v, rfl, rfl⟩ := exists_cut ['\\', 'u'] hcs
      (hbehind.trans (readUnicodeEscape_suffix body))
    obtain ⟨v', hv'⟩ := hbehind
    have hread : readUnicodeEscape v = ⟨some [.char c], v'⟩ := by
      apply readUnicodeEscape_local (r := r)
      rw [hv', ← hunits]
    have hlength := (readUnicodeEscape_suffix v).length_le
    have hlength' := (readUnicodeEscape_suffix (v ++ r)).length_le
    rw [hread] at hlength
    simp only [List.length_append, List.length_cons, List.length_nil] at hfuel hfuel' hlength hlength'
    obtain ⟨n, rfl⟩ := Nat.exists_eq_add_of_le' (show 1 ≤ fuel' by omega)
    have hrest := ih (by omega : v'.length < n) hv' htail (by simp only [read]; omega)
    show readName first (n + 1) ('\\' :: 'u' :: v) = _
    simp [readName, hread, hstart, hrest]
  | case3 => cases h
  | case4 => cases h
  | case5 => cases h
  | case6 =>
    rename_i first fuel c body hunicode hescape hstart tail rest htail ih
    obtain ⟨htext, rfl⟩ := Prod.mk.inj h
    obtain ⟨text, rfl, rfl⟩ := Option.map_eq_some_iff.1 htext
    obtain ⟨v, rfl, rfl⟩ := exists_cut_cons hcs (readName_behind htail)
    simp only [List.length_append, List.length_cons] at hfuel hfuel'
    obtain ⟨n, rfl⟩ := Nat.exists_eq_add_of_le' (show 1 ≤ fuel' by omega)
    have hrest := ih (by omega : v.length < n) rfl htail (by rw [List.length_append]; omega)
    rw [readName]
    · simp [hstart, hrest]
    · rintro body rfl rfl
      exact hescape rfl
    · exact hescape
  | case7 first fuel c rest hunicode hescape hstart =>
    obtain ⟨htext, hrest⟩ := Prod.mk.inj h
    cases htext
    rw [← hcs] at hrest
    obtain rfl := List.append_cancel_right hrest
    obtain ⟨n, rfl⟩ := Nat.exists_eq_add_of_le' (Nat.succ_le_of_lt (Nat.zero_lt_of_lt hfuel'))
    cases w with
    | nil => rfl
    | cons c' v =>
      obtain ⟨rfl, rfl⟩ := List.cons.inj hcs
      rw [readName]
      · rw [if_neg hstart]
      · rintro body rfl rfl
        exact hescape rfl
      · exact hescape
  | case8 =>
    obtain ⟨rfl, rfl⟩ := List.append_eq_nil_iff.1 hcs
    obtain ⟨n, rfl⟩ := Nat.exists_eq_add_of_le' (Nat.succ_le_of_lt (Nat.zero_lt_of_lt hfuel'))
    obtain ⟨htext, hu⟩ := Prod.mk.inj h
    rw [List.append_nil] at hu
    cases htext
    cases hu
    rfl

theorem readName_tail {fuel : Nat} {c : Char} {cs : List Char}
    (hc : isIdentifierStart c = true ∨ c = '\\') : (readName true (fuel + 1) (c :: cs)).2 <:+ cs := by
  unfold readName
  grind [readName_suffix, readUnicodeEscape_suffix]

/-! ## Strings -/

theorem readStringBody_local {offset offset' : OffsetOf} {quote : Char} {fuel fuel' : Nat} {read : BodyRead}
    (h : readStringBody offset quote fuel (w ++ r) = some read) (hrest : read.rest = u ++ r)
    (hfaults : read.faults = []) (hfuel' : w.length < fuel') :
    readStringBody offset' quote fuel' w = some ⟨read.units, read.valid, u, []⟩ := by
  generalize hcs : w ++ r = cs at h
  fun_induction readStringBody offset quote fuel cs generalizing w read fuel' with
  | case1 => cases h
  | case2 => cases h
  | case3 =>
    rename_i fuel body escape ih
    obtain ⟨tail, htail, h⟩ := Option.bind_eq_some_iff.1 h
    cases hunits : escape.units with
    | none =>
      rw [hunits] at h
      cases h
      cases hfaults
    | some us =>
      rw [hunits] at h
      cases h
      dsimp only at hrest hfaults ⊢
      have hleft : r <:+ tail.rest := ⟨u, hrest.symm⟩
      have hbehind := hleft.trans (readStringBody_suffix htail)
      obtain ⟨v, rfl, rfl⟩ := exists_cut_cons hcs (hbehind.trans (readEscape_suffix false body))
      obtain ⟨v', hv'⟩ := hbehind
      have hread : readEscape false v = ⟨some us, v'⟩ := by
        apply readEscape_local (r := r)
        rw [hv', ← hunits]
      have hlength := (readEscape_suffix false v).length_le
      rw [hread] at hlength
      rw [List.length_cons] at hfuel'
      obtain ⟨n, rfl⟩ := Nat.exists_eq_add_of_le' (show 1 ≤ fuel' by omega)
      have hrest := ih hrest hfaults (show v'.length < n by dsimp only at hlength; omega) hv' htail
      simp [readStringBody, hread, hrest]
  | case4 =>
    rename_i fuel body hquote
    cases h
    obtain ⟨v, rfl, hv⟩ := exists_cut_cons hcs ⟨u, hrest.symm⟩
    dsimp only at hrest
    rw [hrest] at hv
    obtain rfl := List.append_cancel_right hv
    obtain ⟨n, rfl⟩ := Nat.exists_eq_add_of_le' (Nat.succ_le_of_lt (Nat.zero_lt_of_lt hfuel'))
    rw [readStringBody]
    · simp
    · exact hquote
  | case5 => cases h
  | case6 =>
    rename_i fuel c body hescape hquote hline ih
    obtain ⟨tail, htail, h⟩ := Option.bind_eq_some_iff.1 h
    cases h
    dsimp only at hrest hfaults ⊢
    have hleft : r <:+ tail.rest := ⟨u, hrest.symm⟩
    obtain ⟨v, rfl, rfl⟩ := exists_cut_cons hcs (hleft.trans (readStringBody_suffix htail))
    rw [List.length_cons] at hfuel'
    obtain ⟨n, rfl⟩ := Nat.exists_eq_add_of_le' (show 1 ≤ fuel' by omega)
    have hrest := ih hrest hfaults (show v.length < n by omega) rfl htail
    rw [readStringBody]
    · simp [hquote, hline, hrest]
    · exact hescape

theorem cutString_local {offset offset' : OffsetOf} {start start' : Nat} {quote : Char} {kind : TokenKind}
    (hkind : kind ≠ .unknown) (h : cutString offset start quote (w ++ r) = ⟨kind, u ++ r, []⟩) :
    cutString offset' start' quote w = ⟨kind, u, []⟩ := by
  unfold cutString at h ⊢
  split at h
  · rename_i read hread
    simp only [Cut.mk.injEq] at h
    obtain ⟨rfl, hrest, hfaults⟩ := h
    rw [readStringBody_local hread hrest hfaults (Nat.lt_succ_self w.length)]
  · exact absurd (congrArg Cut.kind h).symm hkind

end

end MessageCatalog.Script
