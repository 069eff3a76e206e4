/-
How a literal is spelled in a token on one line: raw characters and the escapes that JSON knows,
surrogates in pairs. A string token that is spelled so is read as the literal.
-/
import MessageCatalog.Script.Token

namespace MessageCatalog.Script

open MessageCatalog.Text

/-! ## Spelling -/

/-- The escapes of one character, by the character behind the backslash. -/
def simpleEscapes : List (Char × Char) :=
  [('"', '"'), ('\\', '\\'), ('/', '/'), ('b', '\x08'), ('f', '\x0c'), ('n', '\n'), ('r', '\r'),
    ('t', '\t')]

/-- A raw character or an escape of a token, and the character it stands for. -/
inductive Spells (quote : Char) : List Char → Char → Prop where
  | raw {c : Char} (closing : c ≠ quote) (escape : c ≠ '\\') (line : c ≠ '\n') : Spells quote [c] c
  | simple {c d : Char} (known : (c, d) ∈ simpleEscapes) : Spells quote ['\\', c] d
  | unit {digits : List Char} (length : digits.length = 4) (hex : digits.all isHexDigit = true)
    (high : Json.isHighSurrogate (digitsValue 16 digits) = false)
    (low : Json.isLowSurrogate (digitsValue 16 digits) = false) :
    Spells quote ('\\' :: 'u' :: digits) (Char.ofNat (digitsValue 16 digits))
  | pair {first second : List Char} (length : first.length = 4) (hex : first.all isHexDigit = true)
    (high : Json.isHighSurrogate (digitsValue 16 first) = true) (length' : second.length = 4)
    (hex' : second.all isHexDigit = true)
    (low : Json.isLowSurrogate (digitsValue 16 second) = true) :
    Spells quote ('\\' :: 'u' :: (first ++ '\\' :: 'u' :: second))
      (Json.joinSurrogates (digitsValue 16 first) (digitsValue 16 second))

/-- A raw text that spells a literal, character by character. -/
inductive Spelled (quote : Char) : List Char → List Char → Prop where
  | nil : Spelled quote [] []
  | cons {raw rest : List Char} {c : Char} {literal : List Char} (head : Spells quote raw c)
    (tail : Spelled quote rest literal) : Spelled quote (raw ++ rest) (c :: literal)

theorem Spelled.single {quote : Char} {raw : List Char} {c : Char} (h : Spells quote raw c) :
    Spelled quote raw [c] := by
  have hspelled := Spelled.cons h .nil
  rwa [List.append_nil] at hspelled

theorem Spelled.append {quote : Char} {raw raw' a b : List Char} (h : Spelled quote raw a)
    (h' : Spelled quote raw' b) : Spelled quote (raw ++ raw') (a ++ b) := by
  induction h with
  | nil => exact h'
  | cons head _ ih =>
    rw [List.append_assoc]
    exact .cons head ih

/-- Characters that neither end the token nor start an escape spell themselves. -/
theorem spelled_raw {quote : Char} : ∀ {cs : List Char},
    (∀ c ∈ cs, c ≠ quote ∧ c ≠ '\\' ∧ c ≠ '\n') → Spelled quote cs cs
  | [], _ => .nil
  | c :: cs, h => by
    obtain ⟨⟨hquote, hescape, hline⟩, hcs⟩ := List.forall_mem_cons.1 h
    exact @Spelled.cons quote [c] cs c cs (.raw hquote hescape hline) (spelled_raw hcs)

/-- A part of a literal is spelled by a part of the raw text. -/
theorem Spelled.split {quote : Char} {raw : List Char} : ∀ {a b : List Char},
    Spelled quote raw (a ++ b) →
    ∃ front back, raw = front ++ back ∧ Spelled quote front a ∧ Spelled quote back b
  | [], b, h => ⟨[], raw, rfl, .nil, h⟩
  | c :: a, b, h => by
    cases h with
    | @cons first _ _ _ head tail =>
      obtain ⟨front, back, rfl, hfront, hback⟩ := tail.split
      exact ⟨first ++ front, back, (List.append_assoc _ _ _).symm, .cons head hfront, hback⟩

/-! ## Hexadecimal digits -/

theorem readHex4?_append {digits : List Char} (hlength : digits.length = 4)
    (hhex : digits.all isHexDigit = true) (rest : List Char) :
    Json.readHex4? (digits ++ rest) = some (digitsValue 16 digits, rest) := by
  match digits, hlength with
  | [a, b, c, d], _ => exact if_pos hhex

/-- What no hexadecimal digit has, none of a list of them has. -/
theorem isHexDigit_ne {c d : Char} (hc : isHexDigit c = true) (hd : isHexDigit d = false) : c ≠ d :=
  fun h => by rw [h, hd] at hc; cases hc

theorem toNat_le {c d : Char} (h : c ≤ d) : c.toNat ≤ d.toNat := UInt32.le_iff_toNat_le.1 h

theorem isHexDigit_toNat {c : Char} (h : isHexDigit c = true) : c.toNat < 128 := by
  simp only [isHexDigit, isAsciiDigit, Bool.or_eq_true, Bool.and_eq_true, decide_eq_true_eq] at h
  rcases h with (⟨-, h⟩ | ⟨-, h⟩) | ⟨-, h⟩
  · exact Nat.lt_of_le_of_lt (toNat_le h) (by decide)
  · exact Nat.lt_of_le_of_lt (toNat_le h) (by decide)
  · exact Nat.lt_of_le_of_lt (toNat_le h) (by decide)

theorem utf8Size_of_ascii {c : Char} (h : c.toNat < 128) : c.utf8Size = 1 :=
  Char.utf8Size_eq_one_iff.2 (UInt32.le_iff_toNat_le.2 (Nat.le_of_lt_succ h))

theorem byteLength_hex {digits : List Char} (h : digits.all isHexDigit = true) :
    byteLength digits = digits.length := by
  induction digits with
  | nil => rfl
  | cons c cs ih =>
    rw [List.all_cons, Bool.and_eq_true] at h
    rw [byteLength, utf8Size_of_ascii (isHexDigit_toNat h.1), ih h.2, List.length_cons, Nat.add_comm]

theorem hexValue_lt (c : Char) : hexValue c < 16 := by
  unfold hexValue isAsciiDigit
  simp only [Bool.and_eq_true, decide_eq_true_eq]
  split
  · rename_i h
    have : c.toNat ≤ 57 := toNat_le h.2
    omega
  · split
    · rename_i h
      have : c.toNat ≤ 102 := toNat_le h.2
      omega
    · split
      · rename_i h
        have : c.toNat ≤ 70 := toNat_le h.2
        omega
      · omega

theorem digitsValue_hex4 {digits : List Char} (h : digits.length = 4) :
    digitsValue 16 digits < 0x10000 := by
  match digits, h with
  | [a, b, c, d], _ =>
    have ha := hexValue_lt a
    have hb := hexValue_lt b
    have hc := hexValue_lt c
    have hd := hexValue_lt d
    show (((0 * 16 + hexValue a) * 16 + hexValue b) * 16 + hexValue c) * 16 + hexValue d < 0x10000
    omega

/-! ## Characters of escapes -/

theorem toNat_ofNat_of_valid {n : Nat} (h : n.isValidChar) : (Char.ofNat n).toNat = n := by
  rw [Char.ofNat, dif_pos h]
  rfl

theorem toNat_ofNat_of_lt {n : Nat} (h : n < 0x10000) (hlow : ¬ (0xD800 ≤ n ∧ n ≤ 0xDFFF)) :
    (Char.ofNat n).toNat = n := by
  have hvalid : n.isValidChar := by
    unfold Nat.isValidChar
    omega
  exact toNat_ofNat_of_valid hvalid

theorem isHighSurrogate_iff {n : Nat} : Json.isHighSurrogate n = true ↔ 0xD800 ≤ n ∧ n ≤ 0xDBFF := by
  simp [Json.isHighSurrogate]

theorem isLowSurrogate_iff {n : Nat} : Json.isLowSurrogate n = true ↔ 0xDC00 ≤ n ∧ n ≤ 0xDFFF := by
  simp [Json.isLowSurrogate]

/-- A code that is no surrogate. -/
theorem not_surrogate {n : Nat} (hhigh : Json.isHighSurrogate n = false)
    (hlow : Json.isLowSurrogate n = false) : ¬ (0xD800 ≤ n ∧ n ≤ 0xDFFF) := by
  rw [← Bool.not_eq_true, isHighSurrogate_iff] at hhigh
  rw [← Bool.not_eq_true, isLowSurrogate_iff] at hlow
  omega

theorem toNat_joinSurrogates {n m : Nat} (hhigh : Json.isHighSurrogate n = true)
    (hlow : Json.isLowSurrogate m = true) :
    0xFFFF < (Json.joinSurrogates n m).toNat := by
  rw [isHighSurrogate_iff] at hhigh
  rw [isLowSurrogate_iff] at hlow
  have hvalid : (0x10000 + (n - 0xD800) * 0x400 + (m - 0xDC00)).isValidChar := by
    unfold Nat.isValidChar
    omega
  rw [Json.joinSurrogates, toNat_ofNat_of_valid hvalid]
  omega

/-! ## Measures -/

theorem Spells.byteLength_le {quote : Char} {raw : List Char} {c : Char} (h : Spells quote raw c) :
    c.utf8Size ≤ byteLength raw := by
  have hmost := Char.utf8Size_le_four c
  cases h with
  | raw => exact Nat.le_refl _
  | simple known =>
    have hall : simpleEscapes.all (fun p => p.2.utf8Size ≤ byteLength ['\\', p.1]) = true := by decide
    simpa using List.all_eq_true.1 hall _ known
  | unit length hex =>
    rw [byteLength, byteLength, byteLength_hex hex, length]
    have := Char.utf8Size_pos '\\'
    omega
  | pair length hex high length' hex' low =>
    rw [byteLength, byteLength, byteLength_append, byteLength_hex hex, length]
    omega

theorem Spelled.byteLength_le {quote : Char} {raw literal : List Char}
    (h : Spelled quote raw literal) : byteLength literal ≤ byteLength raw := by
  induction h with
  | nil => exact Nat.le_refl _
  | cons head _ ih =>
    rw [byteLength, byteLength_append]
    exact Nat.add_le_add head.byteLength_le ih

theorem newline_not_mem_hex {digits : List Char} (h : digits.all isHexDigit = true) :
    '\n' ∉ digits := fun hmem =>
  isHexDigit_ne (List.all_eq_true.1 h _ hmem) (by decide) rfl

theorem Spells.newline_not_mem {quote : Char} {raw : List Char} {c : Char} (h : Spells quote raw c) :
    '\n' ∉ raw := by
  cases h with
  | raw _ _ line => exact fun hmem => line (List.mem_singleton.1 hmem).symm
  | simple known =>
    have hall : simpleEscapes.all (fun p => !List.contains ['\\', p.1] '\n') = true := by decide
    simpa using List.all_eq_true.1 hall _ known
  | unit _ hex => simpa using newline_not_mem_hex hex
  | pair _ hex _ _ hex' => simpa using ⟨newline_not_mem_hex hex, newline_not_mem_hex hex'⟩

theorem Spelled.newline_not_mem {quote : Char} {raw literal : List Char}
    (h : Spelled quote raw literal) : '\n' ∉ raw := by
  induction h with
  | nil => exact List.not_mem_nil
  | cons head _ ih =>
    rw [List.mem_append]
    exact not_or.2 ⟨head.newline_not_mem, ih⟩

/-! ## Reading a token -/

theorem unitsText_chars (cs : List Char) : unitsText (cs.map .char) = cs := by
  have hmarked : (cs.map CodeUnit.char).any CodeUnit.isLone = false := by
    rw [List.any_map, List.any_eq_false]
    exact fun _ _ => Bool.false_ne_true
  unfold unitsText
  rw [hmarked, List.flatMap_map]
  exact List.flatMap_singleton' cs

theorem readEscape_simple {c d : Char} (h : (c, d) ∈ simpleEscapes) (rest : List Char) :
    readEscape false (c :: rest) = ⟨some [.char d], rest⟩ := by
  simp only [simpleEscapes, List.mem_cons, Prod.mk.injEq, List.not_mem_nil, or_false] at h
  rcases h with ⟨rfl, rfl⟩ | ⟨rfl, rfl⟩ | ⟨rfl, rfl⟩ | ⟨rfl, rfl⟩ | ⟨rfl, rfl⟩ | ⟨rfl, rfl⟩ |
    ⟨rfl, rfl⟩ | ⟨rfl, rfl⟩ <;> rfl

/-- Behind `\u` hexadecimal digits are not mistaken for a code point in braces. -/
theorem readUnicodeEscape_hex {digits : List Char} (hlength : digits.length = 4)
    (hhex : digits.all isHexDigit = true) {rest : List Char} :
    readUnicodeEscape (digits ++ rest) =
      if Json.isHighSurrogate (digitsValue 16 digits) then
        match rest with
        | '\\' :: 'u' :: tail =>
          match Json.readHex4? tail with
          | some (m, tail) =>
            if Json.isLowSurrogate m then
              ⟨some [.char (Json.joinSurrogates (digitsValue 16 digits) m)], tail⟩
            else ⟨some [.loneSurrogate (digitsValue 16 digits)], rest⟩
          | none => ⟨some [.loneSurrogate (digitsValue 16 digits)], rest⟩
        | _ => ⟨some [.loneSurrogate (digitsValue 16 digits)], rest⟩
      else ⟨some [unitOfCode (digitsValue 16 digits)], rest⟩ := by
  have hread := readHex4?_append hlength hhex rest
  unfold readUnicodeEscape
  split
  · rename_i body heq
    match digits, hlength with
    | [a, b, c, d], _ =>
      cases heq
      rw [List.all_cons, Bool.and_eq_true] at hhex
      exact absurd rfl (isHexDigit_ne hhex.1 (by decide : isHexDigit '\x7b' = false))
  · exact hread ▸ rfl

/-- An escape is read as the character that it spells. -/
theorem readEscape_spells {quote : Char} {raw : List Char} {c : Char}
    (h : Spells quote ('\\' :: raw) c) (rest : List Char) :
    readEscape false (raw ++ rest) = ⟨some [.char c], rest⟩ := by
  cases h with
  | raw _ escape => exact absurd rfl escape
  | simple known => exact readEscape_simple known rest
  | @unit digits hlength hhex hhigh hlow =>
    show readUnicodeEscape (digits ++ rest) = _
    rw [readUnicodeEscape_hex hlength hhex, hhigh]
    simp only [Bool.false_eq_true, if_false, unitOfCode, if_neg (not_surrogate hhigh hlow)]
  | @pair first second hlength hhex hhigh hlength' hhex' hlow =>
    show readUnicodeEscape ((first ++ '\\' :: 'u' :: second) ++ rest) = _
    rw [List.append_assoc, readUnicodeEscape_hex hlength hhex, hhigh]
    show (match Json.readHex4? (second ++ rest) with | some (m, tail) => _ | none => _) = _
    rw [readHex4?_append hlength' hhex']
    simp only [hlow, if_true]

/-- A spelled body that can be read up to its quote is read as the literal, without a fault. -/
theorem readStringBody_spelled {offset : OffsetOf} {quote : Char} (hquote : quote ≠ '\\')
    {raw literal : List Char} (h : Spelled quote raw literal) {rest : List Char} :
    ∀ {fuel : Nat} {read : BodyRead},
      readStringBody offset quote fuel (raw ++ quote :: rest) = some read →
      read = ⟨literal.map .char, true, rest, []⟩ := by
  induction h with
  | nil =>
    intro fuel read hread
    cases fuel with
    | zero => cases hread
    | succ fuel =>
      rw [List.nil_append, readStringBody] at hread
      · rw [if_pos rfl] at hread
        exact (Option.some.inj hread).symm
      · exact hquote
  | @cons raw tail c literal head _ ih =>
    intro fuel read hread
    cases fuel with
    | zero => cases hread
    | succ fuel =>
      rw [List.append_assoc] at hread
      -- the first character of the spelling tells an escape from the character itself
      cases hraw : raw with
      | nil => rw [hraw] at head; cases head
      | cons first body =>
        rw [hraw] at head hread
        by_cases hfirst : first = '\\'
        · subst hfirst
          rw [List.cons_append, readStringBody, readEscape_spells head] at hread
          obtain ⟨others, hothers, hread⟩ := Option.bind_eq_some_iff.1 hread
          cases ih hothers
          exact (Option.some.inj hread).symm
        · cases head with
          | raw closing =>
            rw [List.cons_append, List.nil_append, readStringBody] at hread
            · rw [if_neg closing] at hread
              split at hread
              · cases hread
              · obtain ⟨others, hothers, hread⟩ := Option.bind_eq_some_iff.1 hread
                cases ih hothers
                exact (Option.some.inj hread).symm
            · exact hfirst
          | simple => exact absurd rfl hfirst
          | unit => exact absurd rfl hfirst
          | pair => exact absurd rfl hfirst

/-- A spelling is an escape, or the character itself. -/
theorem Spells.escape_or_raw {quote : Char} {raw : List Char} {c : Char} (h : Spells quote raw c) :
    (∃ body, raw = '\\' :: body) ∨ (raw = [c] ∧ c ≠ quote ∧ c ≠ '\\' ∧ c ≠ '\n') := by
  cases h with
  | raw closing escape line => exact .inr ⟨rfl, closing, escape, line⟩
  | simple => exact .inl ⟨_, rfl⟩
  | unit => exact .inl ⟨_, rfl⟩
  | pair => exact .inl ⟨_, rfl⟩

/-- A spelled body that stays on its line is read up to its quote. -/
theorem readStringBody_of_spelled {offset : OffsetOf} {quote : Char} (hquote : quote ≠ '\\')
    {raw literal : List Char} (h : Spelled quote raw literal) (hreturn : '\r' ∉ raw) (rest : List Char)
    {fuel : Nat} (hfuel : raw.length < fuel) :
    readStringBody offset quote fuel (raw ++ quote :: rest) = some ⟨literal.map .char, true, rest, []⟩ := by
  induction h generalizing fuel with
  | nil =>
    obtain ⟨fuel, rfl⟩ := Nat.exists_eq_add_of_lt hfuel
    rw [List.nil_append, readStringBody]
    · exact if_pos rfl
    · exact hquote
  | @cons raw tail c literal head _ ih =>
    rw [List.mem_append, not_or] at hreturn
    obtain ⟨hraw, htail⟩ := hreturn
    cases fuel with
    | zero => cases hfuel
    | succ fuel =>
      have hpos : 0 < raw.length := by
        rcases head.escape_or_raw with ⟨_, rfl⟩ | ⟨rfl, -⟩ <;> exact Nat.zero_lt_succ _
      have hbehind : readStringBody offset quote fuel (tail ++ quote :: rest) =
          some ⟨literal.map .char, true, rest, []⟩ := by
        refine ih htail ?_
        rw [List.length_append] at hfuel
        omega
      rw [List.append_assoc]
      rcases head.escape_or_raw with ⟨body, rfl⟩ | ⟨rfl, hclosing, hescape, hline⟩
      · rw [List.cons_append, readStringBody, readEscape_spells head]
        simp only [hbehind, Option.bind_eq_bind, Option.bind_some]
        rfl
      · have hends : ¬ (c = '\n' ∨ c = '\r') := by
          rintro (rfl | rfl)
          · exact hline rfl
          · exact hraw List.mem_cons_self
        rw [List.singleton_append, readStringBody]
        · rw [if_neg hclosing, if_neg hends, hbehind]
          rfl
        · exact hescape

end MessageCatalog.Script
